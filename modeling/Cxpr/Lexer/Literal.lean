import Cxpr.Lexer.Partition

/-! The values of number tokens (`cxpr_lexer_number`). The text of a literal is copied into a buffer of 64 bytes before it
    is converted: a longer number is cut off, a longer int64 is rejected. -/

namespace Cxpr.Lexer
open Document (Text isSpace)
variable {D : Type}

structure Exponent where
  letter : Char
  sign : Text
  digits : Text
  isLetter : letter = 'e' ∨ letter = 'E'
  isSign : sign = [] ∨ sign = ['+'] ∨ sign = ['-']
  nonempty : digits ≠ []
  isDigits : ∀ c ∈ digits, c.isDigit = true

structure Fraction where
  digits : Text
  nonempty : digits ≠ []
  isDigits : ∀ c ∈ digits, c.isDigit = true

/-- A literal in the source, with all that is behind it; nothing of that continues the literal. -/
structure Literal where
  whole : Text
  fraction : Option Fraction
  exponent : Option Exponent
  rest : Text
  isDigits : ∀ c ∈ whole, c.isDigit = true
  nonempty : whole = [] → fraction ≠ none
  noDigit : rest.head?.any Char.isDigit = false
  noExponent : exponent = none → rest.head?.any (fun c => c == 'e' || c == 'E') = false
  noFraction : fraction = none → exponent = none → ∀ t, rest = '.' :: t → t.head?.any Char.isDigit = false

def Fraction.text (f : Fraction) : Text := '.' :: f.digits

def Exponent.text (e : Exponent) : Text := e.letter :: (e.sign ++ e.digits)

namespace Literal

def fractionText (n : Literal) : Text := (n.fraction.map Fraction.text).getD []

def exponentText (n : Literal) : Text := (n.exponent.map Exponent.text).getD []

def text (n : Literal) : Text := n.whole ++ (n.fractionText ++ n.exponentText)

def isInteger (n : Literal) : Bool := n.fraction.isNone && n.exponent.isNone

def isInt64 (n : Literal) : Bool := n.isInteger && int64Suffix n.rest

def Denotes (lib : Numerals D) (n : Literal) (t : Token D) : Prop :=
  if n.isInt64 then
    if (digitsValue n.whole : Int) ≤ Int64.maxValue.toInt then
      t.type = .number ∧ t.isInt64 = true ∧ t.int64Value.toInt = digitsValue n.whole
    else t.type = .error
  else t.type = .number ∧ t.isInt64 = false ∧ t.numberValue = lib.strtod n.text

/-- The text fits into the buffer, or what the buffer cuts off makes no difference. -/
def Fits (lib : Numerals D) (n : Literal) : Prop :=
  if n.isInt64 then n.whole.length < bufferSize ∨ Int64.maxValue.toInt < digitsValue n.whole
  else n.text.length < bufferSize ∨ lib.strtod (n.text.take (bufferSize - 1)) = lib.strtod n.text

variable {n : Literal} {l l' : Lexer}

theorem scanSign_of (e : Exponent) {t : Text} (h : l.current = e.sign ++ e.digits ++ t) :
    Cursor.Passes e.sign l (scanSign l) ∧ (scanSign l).current = e.digits ++ t := by
  obtain ⟨d, ds, hd⟩ := List.exists_cons_of_ne_nil e.nonempty
  have hdigit : d.isDigit = true := e.isDigits d (by simp [hd])
  unfold scanSign
  rcases e.isSign with hs | hs | hs <;> rw [hs] at h ⊢
  · have hsees : l.sees (fun c => c == '+' || c == '-') = false := by
      have hplus : d ≠ '+' := by rintro rfl; exact absurd hdigit (by decide)
      have hminus : d ≠ '-' := by rintro rfl; exact absurd hdigit (by decide)
      simp [Cursor.sees, h, hd, hplus, hminus]
    rw [hsees]
    exact ⟨.refl l, h⟩
  · have hcur : l.current = '+' :: (e.digits ++ t) := h
    have hsees : l.sees (fun c => c == '+' || c == '-') = true := by simp [Cursor.sees, hcur]
    rw [hsees]
    exact ⟨Cursor.passes_advance hcur, Cursor.current_advance hcur⟩
  · have hcur : l.current = '-' :: (e.digits ++ t) := h
    have hsees : l.sees (fun c => c == '+' || c == '-') = true := by simp [Cursor.sees, hcur]
    rw [hsees]
    exact ⟨Cursor.passes_advance hcur, Cursor.current_advance hcur⟩

theorem not_digit_of_letter {c : Char} (h : c = 'e' ∨ c = 'E') : c.isDigit = false := by
  rcases h with rfl | rfl <;> rfl

theorem noDigit_exponentText (n : Literal) : (n.exponentText ++ n.rest).head?.any Char.isDigit = false := by
  unfold exponentText
  cases he : n.exponent with
  | none => exact n.noDigit
  | some e => simp [Exponent.text, not_digit_of_letter e.isLetter]

theorem noDigit_fractionText (n : Literal) :
    (n.fractionText ++ (n.exponentText ++ n.rest)).head?.any Char.isDigit = false := by
  unfold fractionText
  cases hf : n.fraction with
  | none => exact n.noDigit_exponentText
  | some f => simp [Fraction.text]

theorem scanFraction_literal (h : l.current = n.fractionText ++ (n.exponentText ++ n.rest)) :
    (scanFraction l).isNone = n.fraction.isNone ∧ Cursor.Passes n.fractionText l ((scanFraction l).getD l) ∧
      ((scanFraction l).getD l).current = n.exponentText ++ n.rest := by
  unfold fractionText at h ⊢
  cases hf : n.fraction with
  | some f =>
    rw [hf] at h
    have hcur : l.current = '.' :: (f.digits ++ (n.exponentText ++ n.rest)) := h
    obtain ⟨d, ds, hd⟩ := List.exists_cons_of_ne_nil f.nonempty
    have hdigit : (f.digits ++ (n.exponentText ++ n.rest)).head?.any Char.isDigit = true := by
      simp [hd, f.isDigits d (by simp [hd])]
    have hscan : scanFraction l = some (l.advance.advanceWhile Char.isDigit) := by
      unfold scanFraction
      rw [hcur]
      exact if_pos hdigit
    obtain ⟨hpass, hrest⟩ := Cursor.passes_run (Cursor.current_advance hcur) f.isDigits n.noDigit_exponentText
    rw [hscan]
    exact ⟨rfl, (Cursor.passes_advance hcur).trans hpass, hrest⟩
  | none =>
    rw [hf] at h
    have hcur : l.current = n.exponentText ++ n.rest := h
    have hscan : scanFraction l = none := by
      unfold scanFraction
      split
      · rename_i t hpoint
        rw [if_neg]
        rw [hcur, exponentText] at hpoint
        cases he : n.exponent with
        | none =>
          rw [he] at hpoint
          rw [n.noFraction hf he t hpoint]
          decide
        | some e =>
          rw [he] at hpoint
          have hletter : e.letter = '.' := (List.cons.inj hpoint).1
          exact absurd (hletter ▸ e.isLetter) (by decide)
      · rfl
    rw [hscan]
    exact ⟨rfl, .refl l, hcur⟩

theorem scanNumber_literal (h : l.current = n.text ++ n.rest) :
    ∃ l', scanNumber l = .ok (l', n.isInteger) ∧ Cursor.Passes n.text l l' ∧ l'.current = n.rest := by
  rw [text, List.append_assoc, List.append_assoc] at h
  obtain ⟨hwhole, hcur₁⟩ := Cursor.passes_run h n.isDigits n.noDigit_fractionText
  obtain ⟨hnone, hfraction, hcur₂⟩ := scanFraction_literal hcur₁
  unfold scanNumber
  dsimp only
  rw [hnone]
  generalize (scanFraction (l.advanceWhile Char.isDigit)).getD (l.advanceWhile Char.isDigit) = l₂ at hfraction hcur₂ ⊢
  have hpass := hwhole.trans hfraction
  unfold exponentText at hcur₂
  cases he : n.exponent with
  | none =>
    rw [he] at hcur₂
    have hscan : scanExponent l₂ = none := by
      have hsees : l₂.sees (fun c => c == 'e' || c == 'E') = false := by
        rw [Cursor.sees, hcur₂]
        exact n.noExponent he
      rw [scanExponent, hsees]
      rfl
    rw [hscan]
    refine ⟨l₂, ?_, ?_, hcur₂⟩
    · simp [isInteger, he]
    · simpa [text, exponentText, he] using hpass
  | some e =>
    rw [he] at hcur₂
    have hletter : l₂.current = e.letter :: (e.sign ++ e.digits ++ n.rest) := hcur₂
    have hscan : scanExponent l₂ = some (scanSign l₂.advance) := by
      have hsees : l₂.sees (fun c => c == 'e' || c == 'E') = true := by
        simpa [Cursor.sees, hletter] using e.isLetter
      rw [scanExponent, hsees]
      rfl
    obtain ⟨hsign, hdigits⟩ := scanSign_of e (Cursor.current_advance hletter)
    have hsees : (scanSign l₂.advance).sees Char.isDigit = true := by
      obtain ⟨d, ds, hd⟩ := List.exists_cons_of_ne_nil e.nonempty
      simp [Cursor.sees, hdigits, hd, e.isDigits d (by simp [hd])]
    obtain ⟨hrun, hrest⟩ := Cursor.passes_run hdigits e.isDigits n.noDigit
    rw [hscan]
    dsimp only
    rw [if_pos hsees]
    refine ⟨_, ?_, ?_, hrest⟩
    · simp [isInteger, he]
    · have htext := hpass.trans (((Cursor.passes_advance hletter).trans hsign).trans hrun)
      simpa [text, exponentText, he, Exponent.text] using htext

theorem startsNumber_literal (n : Literal) : startsNumber (n.text ++ n.rest) = true := by
  obtain ⟨whole, fraction, exponent, rest, hdigits, hne, h₁, h₂, h₃⟩ := n
  cases whole with
  | cons c whole => simp [text, startsNumber, hdigits c (by simp)]
  | nil =>
    cases fraction with
    | none => exact absurd rfl (hne rfl)
    | some f =>
      obtain ⟨d, ds, hd⟩ := List.exists_cons_of_ne_nil f.nonempty
      simp [text, fractionText, Fraction.text, startsNumber, hd, f.isDigits d (by simp [hd])]

theorem isSpace_of_isDigit {c : Char} (h : c.isDigit = true) : isSpace c = false := by
  have hlow : 48 ≤ c.toNat := by
    rw [Char.isDigit, Bool.and_eq_true, decide_eq_true_eq] at h
    exact UInt32.le_iff_toNat_le.mp h.1
  cases hc : isSpace c with
  | false => rfl
  | true =>
    simp only [isSpace, Bool.or_eq_true, beq_iff_eq] at hc
    rcases hc with ((((rfl | rfl) | rfl) | hc) | hc) | rfl
    · exact absurd h (by decide)
    · exact absurd h (by decide)
    · exact absurd h (by decide)
    · omega
    · omega
    · exact absurd h (by decide)

theorem next_literal (lib : Numerals D) (h : l.current = n.text ++ n.rest) : next lib l = lexNumber lib l := by
  have hstart := n.startsNumber_literal
  rw [← h] at hstart
  cases hcur : l.current with
  | nil => simp [hcur, startsNumber] at hstart
  | cons c rest =>
    rw [hcur, startsNumber] at hstart
    have hspace : isSpace c = false ∧ c ≠ '#' ∧ c ≠ '/' := by
      rcases Bool.or_eq_true_iff.mp hstart with hdigit | hpoint
      · refine ⟨?_, ?_, ?_⟩
        · exact isSpace_of_isDigit hdigit
        · rintro rfl; exact absurd hdigit (by decide)
        · rintro rfl; exact absurd hdigit (by decide)
      · obtain rfl : c = '.' := by simpa using (Bool.and_eq_true_iff.mp hpoint).1
        exact ⟨rfl, by decide, by decide⟩
    have hskip : skipWhitespace l = l := by
      have hsame : l.advanceWhile isSpace = l := by
        simp [Cursor.advanceWhile, hcur, hspace.1, Cursor.advanceBy]
      rw [skipWhitespace, skipLoop, hsame]
      split
      · rename_i h; exact absurd (List.cons.inj (hcur.symm.trans h)).1 hspace.2.1
      · rename_i h; exact absurd (List.cons.inj (hcur.symm.trans h)).1 hspace.2.2
      · rename_i h; exact absurd (List.cons.inj (hcur.symm.trans h)).1 hspace.2.2
      · rfl
    unfold next
    dsimp only
    rw [hskip]
    split
    · rename_i hnil
      rw [hcur] at hnil
      cases hnil
    · rename_i d t hd
      obtain ⟨rfl, rfl⟩ := List.cons.inj (hcur.symm.trans hd)
      rw [if_pos hstart]

theorem text_of_isInt64 (h : n.isInt64 = true) : n.text = n.whole := by
  simp only [isInt64, isInteger, Bool.and_eq_true, Option.isNone_iff_eq_none] at h
  simp [text, fractionText, exponentText, h.1.1, h.1.2]

theorem lexNumber_int64 (lib : Numerals D) (h : l.current = n.text ++ n.rest) (hint : n.isInt64 = true) :
    Denotes lib n (lexNumber lib l).1 ↔ n.whole.length < bufferSize ∨ Int64.maxValue.toInt < digitsValue n.whole := by
  obtain ⟨l', hscan, hpass, hrest⟩ := scanNumber_literal h
  have hsuffix : (n.isInteger && int64Suffix l'.current) = true := by rwa [hrest]
  have hmax : Int64.maxValue.toInt = 9223372036854775807 := rfl
  unfold lexNumber Denotes
  rw [hscan]
  dsimp only
  rw [if_pos hsuffix, if_pos hint, hpass.between_eq, text_of_isInt64 hint]
  by_cases hlong : bufferSize ≤ n.whole.length
  · rw [if_pos hlong]
    by_cases hfits : (digitsValue n.whole : Int) ≤ Int64.maxValue.toInt
    · rw [if_pos hfits]
      refine ⟨fun htoken => absurd htoken.1 (by simp [makeErrorToken, makeToken]), fun hor => ?_⟩
      rcases hor with hshort | hbig
      · omega
      · omega
    · rw [if_neg hfits]
      exact ⟨fun _ => .inr (Int.not_le.mp hfits), fun _ => rfl⟩
  · rw [if_neg hlong]
    refine ⟨fun _ => .inl (Nat.not_le.mp hlong), fun _ => ?_⟩
    unfold strtoimax
    by_cases hfits : (digitsValue n.whole : Int) ≤ Int64.maxValue.toInt
    · rw [if_pos hfits, if_pos (by omega)]
      refine ⟨rfl, rfl, ?_⟩
      show (Int64.ofNat (digitsValue n.whole)).toInt = _
      rw [Int64.toInt_ofNat_of_lt (by omega)]
    · rw [if_neg hfits, if_neg (by omega)]
      rfl

theorem lexNumber_number (lib : Numerals D) (h : l.current = n.text ++ n.rest) (hint : n.isInt64 = false) :
    Denotes lib n (lexNumber lib l).1 ↔
      n.text.length < bufferSize ∨ lib.strtod (n.text.take (bufferSize - 1)) = lib.strtod n.text := by
  obtain ⟨l', hscan, hpass, hrest⟩ := scanNumber_literal h
  have hsuffix : (n.isInteger && int64Suffix l'.current) = false := by rwa [hrest]
  unfold lexNumber Denotes
  rw [hscan]
  dsimp only
  rw [hsuffix, hint, hpass.between_eq]
  constructor
  · intro hdenotes
    exact .inr hdenotes.2.2
  · rintro (hshort | hsame)
    · refine ⟨rfl, rfl, ?_⟩
      show lib.strtod (n.text.take (bufferSize - 1)) = _
      rw [List.take_of_length_le (by omega)]
    · exact ⟨rfl, rfl, hsame⟩

/-- A number token has the value of its whole text exactly if the text fits into the buffer, or nothing is lost with the
    part that does not. -/
theorem next_denotes_iff (lib : Numerals D) (n : Literal) (line column position : Nat) :
    n.Denotes lib (next lib ⟨n.text ++ n.rest, line, column, position⟩).1 ↔ n.Fits lib := by
  have hcur : (⟨n.text ++ n.rest, line, column, position⟩ : Lexer).current = n.text ++ n.rest := rfl
  rw [next_literal lib hcur, Fits]
  cases hint : n.isInt64 with
  | true => exact lexNumber_int64 lib hcur hint
  | false => exact lexNumber_number lib hcur hint

theorem isDigit_zerosOne : ∀ c ∈ List.replicate 63 '0' ++ ['1'], c.isDigit = true := by
  intro c hc
  rcases List.mem_append.mp hc with hzero | hone
  · rw [List.eq_of_mem_replicate hzero]
    rfl
  · rw [List.mem_singleton.mp hone]
    rfl

def zerosOne : Literal where
  whole := List.replicate 63 '0' ++ ['1']
  fraction := none
  exponent := none
  rest := []
  isDigits := isDigit_zerosOne
  nonempty := nofun
  noDigit := rfl
  noExponent _ := rfl
  noFraction _ _ := nofun

theorem zerosOne_cut : ¬zerosOne.Denotes integralNumerals (next integralNumerals (Cursor.start (zerosOne.text ++ zerosOne.rest))).1 := by
  unfold Denotes
  decide +kernel

end Literal
end Cxpr.Lexer
