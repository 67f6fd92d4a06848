import Cxpr.Document.Blocks
import Cxpr.Document.Lower

/-! Declaration types: the annotations that `cxpr_doc_ast_type_valid` accepts beside the ones that denote a type, and
    what `cxpr_document_parse_decl_type` reads from them. -/

namespace Cxpr.Document

/-! ### Annotations -/

inductive Scalar where
  | number | bool | int
  deriving DecidableEq

namespace Scalar

def word : Scalar → Text
  | number => "number".toList
  | bool => "bool".toList
  | int => "int".toList

def declared : Scalar → DeclType
  | number => .number
  | bool => .bool
  | int => .int

def element : Scalar → ElementType
  | number => .number
  | bool => .bool
  | int => .int

end Scalar

def numeral (digits : Text) : Nat := digits.foldl (fun n c => 10 * n + (c.toNat - '0'.toNat)) 0

def Blank (s : Text) : Prop := ∀ c ∈ s, isSpace c = true

/-- A text of the form `buffer<T, samples = n>`, with spaces where they may stand. The sign is empty, `+` or `-`. -/
structure BufferForm where
  element : Scalar
  gap₁ : Text
  gap₂ : Text
  gap₃ : Text
  gap₄ : Text
  gap₅ : Text
  sign : Text
  digits : Text
  blank₁ : Blank gap₁
  blank₂ : Blank gap₂
  blank₃ : Blank gap₃
  blank₄ : Blank gap₄
  blank₅ : Blank gap₅
  signed : sign = [] ∨ sign = ['+'] ∨ sign = ['-']
  decimal : ∀ c ∈ digits, c.isDigit = true
  present : digits ≠ []

namespace BufferForm

def tail (b : BufferForm) : Text := b.gap₄ ++ (b.sign ++ (b.digits ++ (b.gap₅ ++ ['>'])))

def size (b : BufferForm) : Text := b.gap₂ ++ ("samples".toList ++ (b.gap₃ ++ '=' :: b.tail))

def inner (b : BufferForm) : Text := b.element.word ++ (b.gap₁ ++ ',' :: b.size)

def text (b : BufferForm) : Text := "buffer<".toList ++ b.inner

def Sized (b : BufferForm) : Prop := b.sign = [] ∧ 1 ≤ numeral b.digits ∧ numeral b.digits ≤ ulongMax

end BufferForm

inductive Denotes : Text → TypeInfo → Prop
  | scalar (T : Scalar) : Denotes T.word ⟨T.declared, T.element, 0⟩
  | series (T : Scalar) : Denotes ("series<".toList ++ (T.word ++ ['>'])) ⟨.series, T.element, 0⟩
  | buffer (b : BufferForm) (h : b.Sized) : Denotes b.text ⟨.buffer, b.element.element, numeral b.digits⟩

/-- The annotations outside the language of types that are accepted: a series with text after its closing bracket, and
    a buffer whose capacity has a sign or is too large. -/
inductive Loose : Text → Prop
  | series (T : Scalar) (junk : Text) : Loose ("series<".toList ++ (T.word ++ '>' :: (junk ++ ['>'])))
  | buffer (b : BufferForm) (hn : numeral b.digits ≠ 0) (h : b.sign ≠ [] ∨ ulongMax < numeral b.digits) : Loose b.text

variable {rest s gap t : Text} {c : Char} {T : Scalar} {b : BufferForm}

theorem digitsValue_append {digits : Text} (hd : ∀ c ∈ digits, c.isDigit = true) (hne : digits ≠ [])
    (hrest : ∀ c ∈ rest.head?, c.isDigit = false) : digitsValue (digits ++ rest) = some (numeral digits, rest) := by
  have htake : (digits ++ rest).takeWhile Char.isDigit = digits := by
    rw [List.takeWhile_append_of_pos hd]
    cases rest with
    | nil => simp
    | cons c rest => simp [hrest c rfl]
  have hdrop : (digits ++ rest).dropWhile Char.isDigit = rest := by
    rw [List.dropWhile_append_of_pos hd]
    cases rest with
    | nil => rfl
    | cons c rest => simp [hrest c rfl]
  simp only [digitsValue, htake, hdrop, numeral]
  cases digits with
  | nil => exact absurd rfl hne
  | cons c digits => rfl

theorem of_digitsValue {left : Text} {n : Nat} (h : digitsValue s = some (n, left)) :
    ∃ digits, (∀ c ∈ digits, c.isDigit = true) ∧ digits ≠ [] ∧ s = digits ++ left ∧ n = numeral digits := by
  unfold digitsValue at h
  cases hempty : (s.takeWhile Char.isDigit).isEmpty with
  | true => simp [hempty] at h
  | false =>
    simp only [hempty, Bool.false_eq_true, if_false, Option.some.injEq, Prod.mk.injEq] at h
    obtain ⟨rfl, rfl⟩ := h
    refine ⟨s.takeWhile Char.isDigit, fun c hc => List.mem_takeWhile_imp hc, ?_, ?_, rfl⟩
    · rintro hnil
      simp [hnil] at hempty
    · exact List.takeWhile_append_dropWhile.symm

def signedValue (sign : Text) (n : Nat) : Nat :=
  if sign = ['-'] then if ulongMax < n then ulongMax else (ulongMax + 1 - n) % (ulongMax + 1) else min n ulongMax

theorem signedValue_ne_zero (sign : Text) {n : Nat} : signedValue sign n ≠ 0 ↔ n ≠ 0 := by
  unfold signedValue ulongMax
  split
  · split <;> omega
  · omega

theorem of_dropWhile (h : s.dropWhile isSpace = rest) : ∃ gap, Blank gap ∧ s = gap ++ rest := by
  refine ⟨s.takeWhile isSpace, fun c hc => List.mem_takeWhile_imp hc, ?_⟩
  rw [← h, List.takeWhile_append_dropWhile]

theorem dropWhile_blank (hb : Blank gap) (hrest : ∀ c ∈ rest.head?, isSpace c = false) :
    (gap ++ rest).dropWhile isSpace = rest := by
  rw [List.dropWhile_append_of_pos hb]
  cases rest with
  | nil => rfl
  | cons c rest => simp [hrest c rfl]

theorem not_isSpace_of_isDigit (h : c.isDigit = true) : isSpace c = false := by
  simp only [Char.isDigit, Bool.and_eq_true, decide_eq_true_eq, ge_iff_le, UInt32.le_iff_toNat_le] at h
  obtain ⟨hlow, -⟩ := h
  have hc : 48 ≤ c.toNat := hlow
  have hne : ∀ d : Char, d.toNat < 48 → c ≠ d := by
    rintro d hd rfl
    omega
  simp only [isSpace, Bool.or_eq_false_iff, beq_eq_false_iff_ne]
  exact ⟨⟨⟨⟨⟨hne _ (by decide), hne _ (by decide)⟩, hne _ (by decide)⟩, by omega⟩, by omega⟩, hne _ (by decide)⟩

theorem strtoul_dropWhile (s : Text) : strtoul (s.dropWhile isSpace) = strtoul s := by
  rw [strtoul, strtoul, List.dropWhile_idempotent]

theorem strtoul_append {sign digits : Text} (hb : Blank gap)
    (hs : sign = [] ∨ sign = ['+'] ∨ sign = ['-']) (hd : ∀ c ∈ digits, c.isDigit = true) (hne : digits ≠ [])
    (hrest : ∀ c ∈ rest.head?, c.isDigit = false) :
    strtoul (gap ++ (sign ++ (digits ++ rest))) = some (signedValue sign (numeral digits), rest) := by
  have hdigits := digitsValue_append hd hne hrest
  rcases hs with rfl | rfl | rfl
  · obtain ⟨c, digits, rfl⟩ := List.exists_cons_of_ne_nil hne
    have hc := hd c (List.mem_cons_self ..)
    have hdrop : (gap ++ ([] ++ (c :: digits ++ rest))).dropWhile isSpace = c :: digits ++ rest :=
      dropWhile_blank hb (by simp [not_isSpace_of_isDigit hc])
    unfold strtoul
    rw [hdrop]
    split
    · rename_i heq
      obtain ⟨rfl, -⟩ := List.cons.inj heq
      exact absurd hc (by decide)
    · rename_i heq
      obtain ⟨rfl, -⟩ := List.cons.inj heq
      exact absurd hc (by decide)
    · rw [hdigits]
      simp [signedValue]
  · have hdrop : (gap ++ (['+'] ++ (digits ++ rest))).dropWhile isSpace = '+' :: (digits ++ rest) :=
      dropWhile_blank hb (by simp [isSpace])
    unfold strtoul
    rw [hdrop]
    simp [hdigits, signedValue]
  · have hdrop : (gap ++ (['-'] ++ (digits ++ rest))).dropWhile isSpace = '-' :: (digits ++ rest) :=
      dropWhile_blank hb (by simp [isSpace])
    unfold strtoul
    rw [hdrop]
    simp [hdigits, signedValue]

theorem of_strtoul {left : Text} {n : Nat} (h : strtoul s = some (n, left)) :
    ∃ gap sign digits, Blank gap ∧ (sign = [] ∨ sign = ['+'] ∨ sign = ['-']) ∧ (∀ c ∈ digits, c.isDigit = true) ∧
      digits ≠ [] ∧ s = gap ++ (sign ++ (digits ++ left)) ∧ n = signedValue sign (numeral digits) := by
  unfold strtoul at h
  split at h
  · rename_i rest heq
    obtain ⟨⟨m, left'⟩, hm, hpair⟩ := Option.map_eq_some_iff.mp h
    obtain ⟨rfl, rfl⟩ := Prod.mk.inj hpair
    obtain ⟨gap, hb, rfl⟩ := of_dropWhile heq
    obtain ⟨digits, hd, hne, rfl, rfl⟩ := of_digitsValue hm
    exact ⟨gap, ['-'], digits, hb, .inr (.inr rfl), hd, hne, rfl, by simp [signedValue]⟩
  · rename_i rest heq
    obtain ⟨⟨m, left'⟩, hm, hpair⟩ := Option.map_eq_some_iff.mp h
    obtain ⟨rfl, rfl⟩ := Prod.mk.inj hpair
    obtain ⟨gap, hb, rfl⟩ := of_dropWhile heq
    obtain ⟨digits, hd, hne, rfl, rfl⟩ := of_digitsValue hm
    exact ⟨gap, ['+'], digits, hb, .inr (.inl rfl), hd, hne, rfl, by simp [signedValue]⟩
  · obtain ⟨⟨m, left'⟩, hm, hpair⟩ := Option.map_eq_some_iff.mp h
    obtain ⟨rfl, rfl⟩ := Prod.mk.inj hpair
    obtain ⟨digits, hd, hne, hs, rfl⟩ := of_digitsValue hm
    obtain ⟨gap, hb, rfl⟩ := of_dropWhile hs
    exact ⟨gap, [], digits, hb, .inl rfl, hd, hne, rfl, by simp [signedValue]⟩

/-! ### What is accepted -/

theorem strchr_append (h : c ∉ s) : strchr (s ++ c :: rest) c = some s.length := by
  have hnone : s.findIdx? (· == c) = none := strchr_eq_none h
  simp [strchr, List.findIdx?_append, List.findIdx?_cons, hnone]

theorem of_strchr {i : Nat} (h : strchr s c = some i) :
    s = s.take i ++ c :: s.drop (i + 1) := by
  obtain ⟨hi, hc, -⟩ := List.findIdx?_eq_some_iff_getElem.mp h
  rw [beq_iff_eq] at hc
  rw [← hc, ← List.drop_eq_getElem_cons hi, List.take_append_drop]

theorem isPrefixOf_iff_append {word : Text} : word.isPrefixOf s = true ↔ ∃ rest, s = word ++ rest := by
  rw [List.isPrefixOf_iff_prefix]
  exact ⟨fun ⟨rest, h⟩ => ⟨rest, h.symm⟩, fun ⟨rest, h⟩ => ⟨rest, h.symm⟩⟩

theorem isWord_iff :
    (s == "number".toList || s == "bool".toList || s == "int".toList) = true ↔ ∃ T : Scalar, s = T.word := by
  simp only [Bool.or_eq_true, beq_iff_eq]
  constructor
  · rintro ((h | h) | h)
    · exact ⟨.number, h⟩
    · exact ⟨.bool, h⟩
    · exact ⟨.int, h⟩
  · rintro ⟨T, rfl⟩
    cases T
    · exact .inl (.inl rfl)
    · exact .inl (.inr rfl)
    · exact .inr rfl

theorem Scalar.comma_not_mem (T : Scalar) : ',' ∉ T.word := by
  cases T <;> decide

theorem rdropWhile_blank (hgap : Blank gap) (hs : ∀ c ∈ s.getLast?, isSpace c = false) :
    (s ++ gap).rdropWhile isSpace = s := by
  induction gap using List.reverseRecOn with
  | nil =>
    rw [List.append_nil, List.rdropWhile_eq_self_iff]
    intro hne
    simpa using hs _ (List.getLast_mem_getLast? hne)
  | append_singleton gap c ih =>
    rw [← List.append_assoc, List.rdropWhile_concat_pos _ _ _ (hgap c (by simp))]
    exact ih fun d hd => hgap d (by simp [hd])

theorem Scalar.rdropWhile_word (T : Scalar) (hb : Blank gap) :
    (T.word ++ gap).rdropWhile isSpace = T.word := by
  apply rdropWhile_blank hb
  cases T <;> (intro c hc; cases hc; rfl)

theorem of_rdropWhile {word : Text} (h : s.rdropWhile isSpace = word) : ∃ gap, Blank gap ∧ s = word ++ gap := by
  refine ⟨s.rtakeWhile isSpace, fun c hc => List.mem_rtakeWhile_imp hc, ?_⟩
  rw [← h, List.rdropWhile_append_rtakeWhile]

theorem not_mem_blank (hb : Blank gap) (hc : isSpace c = false) : c ∉ gap := by
  intro hmem
  rw [hb c hmem] at hc
  exact Bool.noConfusion hc

theorem head_blank_close (hb : Blank gap) : ∀ c ∈ (gap ++ ['>']).head?, c.isDigit = false := by
  intro c hc
  cases gap with
  | nil =>
    obtain rfl : '>' = c := by simpa using hc
    decide
  | cons d gap =>
    obtain rfl : d = c := by simpa using hc
    have hspace := hb d (by simp)
    by_contra hdigit
    rw [not_isSpace_of_isDigit (by simpa using hdigit)] at hspace
    exact Bool.noConfusion hspace

namespace BufferForm
variable (b : BufferForm)

theorem strtoul_tail : strtoul b.tail = some (signedValue b.sign (numeral b.digits), b.gap₅ ++ ['>']) :=
  strtoul_append b.blank₄ b.signed b.decimal b.present (head_blank_close b.blank₅)

theorem strchr_inner : strchr b.inner ',' = some (b.element.word ++ b.gap₁).length := by
  rw [inner, ← List.append_assoc]
  apply strchr_append
  rw [List.mem_append]
  rintro (h | h)
  · exact b.element.comma_not_mem h
  · exact not_mem_blank b.blank₁ (by decide) h

theorem take_inner : b.inner.take (b.element.word ++ b.gap₁).length = b.element.word ++ b.gap₁ := by
  rw [inner, ← List.append_assoc, List.take_left]

theorem drop_inner : b.inner.drop (b.element.word ++ b.gap₁).length = ',' :: b.size := by
  rw [inner, ← List.append_assoc, List.drop_left]

theorem drop_inner_succ : b.inner.drop ((b.element.word ++ b.gap₁).length + 1) = b.size := by
  rw [← List.drop_drop, drop_inner]
  rfl

theorem getLast?_inner : b.inner.getLast? = some '>' := by
  simp [inner, size, tail, List.getLast?_append, List.getLast?_cons]

theorem dropWhile_size : b.size.dropWhile isSpace = "samples".toList ++ (b.gap₃ ++ '=' :: b.tail) :=
  dropWhile_blank b.blank₂ (by simp [isSpace])

theorem dropWhile_tail : (b.gap₃ ++ '=' :: b.tail).dropWhile isSpace = '=' :: b.tail :=
  dropWhile_blank b.blank₃ (by simp [isSpace])

end BufferForm

theorem series_beq (rest : Text) :
    ("series<".toList ++ rest == "number".toList || "series<".toList ++ rest == "bool".toList ||
      "series<".toList ++ rest == "int".toList) = false := by
  simp

theorem buffer_beq (rest : Text) :
    ("buffer<".toList ++ rest == "number".toList || "buffer<".toList ++ rest == "bool".toList ||
      "buffer<".toList ++ rest == "int".toList) = false := by
  simp

theorem buffer_not_series (rest : Text) : "series<".toList.isPrefixOf ("buffer<".toList ++ rest) = false := rfl

theorem buffer_isPrefixOf (rest : Text) : "buffer<".toList.isPrefixOf ("buffer<".toList ++ rest) = true := by
  simp

theorem typeValid_bufferForm (b : BufferForm) (hn : numeral b.digits ≠ 0) : typeValid b.text = true := by
  have hword : ((b.inner.take (b.element.word ++ b.gap₁).length).rdropWhile isSpace) = b.element.word := by
    rw [b.take_inner, b.element.rdropWhile_word b.blank₁]
  have hlast : ("buffer<".toList ++ b.inner).getLast? = some '>' := by
    rw [List.getLast?_append, b.getLast?_inner]
    exact Option.some_or
  have hinner : ("buffer<".toList ++ b.inner).drop 7 = b.inner := List.drop_left' rfl
  have hend : (b.gap₅ ++ ['>']).dropWhile isSpace = ['>'] := dropWhile_blank b.blank₅ (by simp [isSpace])
  have hsamples : ("samples".toList ++ (b.gap₃ ++ '=' :: b.tail)).drop 7 = b.gap₃ ++ '=' :: b.tail :=
    List.drop_left' rfl
  have hpre : "samples".toList.isPrefixOf ("samples".toList ++ (b.gap₃ ++ '=' :: b.tail)) = true :=
    isPrefixOf_iff_append.mpr ⟨_, rfl⟩
  have hvalue : (signedValue b.sign (numeral b.digits) != 0) = true := by
    simpa using (signedValue_ne_zero b.sign).mpr hn
  have hisword := isWord_iff.mpr ⟨b.element, rfl⟩
  unfold BufferForm.text typeValid
  simp only [buffer_beq, buffer_not_series, buffer_isPrefixOf, hinner, b.strchr_inner, hword, hlast, b.drop_inner_succ,
    b.dropWhile_size, hpre, hsamples, b.dropWhile_tail, strtoul_dropWhile, b.strtoul_tail, hend, hisword, hvalue,
    bne_self_eq_false, Bool.not_true, Bool.false_eq_true, if_false, Bool.true_and, beq_self_eq_true]

theorem exists_bufferForm (h : typeValid ("buffer<".toList ++ rest) = true) :
    ∃ b : BufferForm, b.inner = rest ∧ numeral b.digits ≠ 0 := by
  have hinner : ("buffer<".toList ++ rest).drop 7 = rest := List.drop_left' rfl
  unfold typeValid at h
  rw [hinner] at h
  cases hcomma : strchr rest ',' with
  | none => simp [hcomma] at h
  | some comma =>
    simp only [hcomma, buffer_beq, buffer_not_series, buffer_isPrefixOf, Bool.not_true, Bool.false_eq_true, if_false,
      strtoul_dropWhile, Bool.if_false_left, Bool.and_eq_true, Bool.not_eq_true', decide_eq_false_iff_not,
      Bool.not_eq_false] at h
    obtain ⟨-, hword, hsamples, hsize⟩ := h
    obtain ⟨T, hT⟩ := isWord_iff.mp hword
    obtain ⟨gap₁, hb₁, htake⟩ := of_rdropWhile hT
    obtain ⟨q, hq⟩ := isPrefixOf_iff_append.mp hsamples
    obtain ⟨gap₂, hb₂, hdrop⟩ := of_dropWhile hq
    rw [hq, show ("samples".toList ++ q).drop 7 = q from List.drop_left' rfl] at hsize
    split at hsize
    · rename_i p heq
      obtain ⟨gap₃, hb₃, rfl⟩ := of_dropWhile heq
      split at hsize
      · exact absurd hsize (by simp)
      · rename_i n left hnum
        rw [Bool.and_eq_true, bne_iff_ne, beq_iff_eq] at hsize
        obtain ⟨gap₄, sign, digits, hb₄, hsign, hd, hne, hp, hn⟩ := of_strtoul hnum
        obtain ⟨gap₅, hb₅, hleft⟩ := of_dropWhile hsize.2
        refine ⟨⟨T, gap₁, gap₂, gap₃, gap₄, gap₅, sign, digits, hb₁, hb₂, hb₃, hb₄, hb₅, hsign, hd, hne⟩, ?_, ?_⟩
        · simp only [BufferForm.inner, BufferForm.size, BufferForm.tail]
          rw [of_strchr hcomma, htake, hdrop, hp, hleft]
          simp
        · rw [hn] at hsize
          exact (signedValue_ne_zero _).mp hsize.1
    · exact absurd hsize (by simp)

theorem typeValid_buffer_iff :
    typeValid ("buffer<".toList ++ rest) = true ↔ ∃ b : BufferForm, b.inner = rest ∧ numeral b.digits ≠ 0 :=
  ⟨exists_bufferForm, fun ⟨b, hb, hn⟩ => hb ▸ typeValid_bufferForm b hn⟩

theorem word_close_isPrefixOf_iff :
    ("number>".toList.isPrefixOf s || "bool>".toList.isPrefixOf s || "int>".toList.isPrefixOf s) = true ↔
      ∃ (T : Scalar) (rest : Text), s = T.word ++ '>' :: rest := by
  simp only [Bool.or_eq_true, isPrefixOf_iff_append]
  constructor
  · rintro ((⟨rest, rfl⟩ | ⟨rest, rfl⟩) | ⟨rest, rfl⟩)
    · exact ⟨.number, rest, rfl⟩
    · exact ⟨.bool, rest, rfl⟩
    · exact ⟨.int, rest, rfl⟩
  · rintro ⟨T, rest, rfl⟩
    cases T
    · exact .inl (.inl ⟨rest, rfl⟩)
    · exact .inl (.inr ⟨rest, rfl⟩)
    · exact .inr ⟨rest, rfl⟩

theorem typeValid_series_iff :
    typeValid ("series<".toList ++ rest) = true ↔
      ∃ T : Scalar, rest = T.word ++ ['>'] ∨ ∃ junk, rest = T.word ++ '>' :: (junk ++ ['>']) := by
  have hdrop : ("series<".toList ++ rest).drop 7 = rest := List.drop_left' rfl
  have hpre : "series<".toList.isPrefixOf ("series<".toList ++ rest) = true := isPrefixOf_iff_append.mpr ⟨_, rfl⟩
  unfold typeValid
  simp only [series_beq, hpre, hdrop, Bool.false_eq_true, if_false, if_true, Bool.and_eq_true, word_close_isPrefixOf_iff,
    decide_eq_true_eq, beq_iff_eq]
  constructor
  · rintro ⟨⟨-, hlast⟩, T, rest, rfl⟩
    refine ⟨T, ?_⟩
    rcases List.eq_nil_or_concat rest with rfl | ⟨junk, c, rfl⟩
    · exact .inl rfl
    · obtain rfl : c = '>' := by simpa [List.getLast?_append, List.getLast?_cons] using hlast
      exact .inr ⟨junk, by simp⟩
  · rintro ⟨T, rfl | ⟨junk, rfl⟩⟩
    · refine ⟨⟨?_, by simp [List.getLast?_cons]⟩, T, [], rfl⟩
      cases T <;> decide
    · refine ⟨⟨?_, by simp [List.getLast?_append, List.getLast?_cons]⟩, T, junk ++ ['>'], rfl⟩
      cases T <;> simp [Scalar.word]

theorem typeValid_iff : typeValid t = true ↔ (∃ info, Denotes t info) ∨ Loose t := by
  constructor
  · intro h
    by_cases hword : ∃ T : Scalar, t = T.word
    · obtain ⟨T, rfl⟩ := hword
      exact .inl ⟨_, .scalar T⟩
    by_cases hseries : "series<".toList.isPrefixOf t = true
    · obtain ⟨rest, rfl⟩ := isPrefixOf_iff_append.mp hseries
      rw [typeValid_series_iff] at h
      obtain ⟨T, rfl | ⟨junk, rfl⟩⟩ := h
      · exact .inl ⟨_, .series T⟩
      · exact .inr (.series T junk)
    by_cases hbuffer : "buffer<".toList.isPrefixOf t = true
    · obtain ⟨rest, rfl⟩ := isPrefixOf_iff_append.mp hbuffer
      rw [typeValid_buffer_iff] at h
      obtain ⟨b, rfl, hn⟩ := h
      by_cases hsized : b.Sized
      · exact .inl ⟨_, .buffer b hsized⟩
      · refine .inr (.buffer b hn ?_)
        by_contra hor
        rw [not_or, not_not, Nat.not_lt] at hor
        exact hsized ⟨hor.1, Nat.one_le_iff_ne_zero.mpr hn, hor.2⟩
    · rw [← isWord_iff, Bool.not_eq_true] at hword
      rw [Bool.not_eq_true] at hseries hbuffer
      unfold typeValid at h
      simp only [hword, hseries, hbuffer, Bool.not_false, if_true, Bool.false_eq_true, if_false] at h
  · rintro (⟨info, h⟩ | h)
    · cases h with
      | scalar T => cases T <;> decide
      | series T =>
        rw [typeValid_series_iff]
        exact ⟨T, .inl rfl⟩
      | buffer b h => exact typeValid_bufferForm b (Nat.one_le_iff_ne_zero.mp h.2.1)
    · cases h with
      | series T junk =>
        rw [typeValid_series_iff]
        exact ⟨T, .inr ⟨junk, rfl⟩⟩
      | buffer b hn h => exact typeValid_bufferForm b hn

theorem strchr_size (b : BufferForm) : strchr (',' :: b.size) '=' = some (b.gap₂.length + b.gap₃.length + 8) := by
  have hsize : ',' :: b.size = (',' :: (b.gap₂ ++ ("samples".toList ++ b.gap₃))) ++ '=' :: b.tail := by
    simp [BufferForm.size]
  rw [hsize, strchr_append]
  · simp
    omega
  · have h₂ := not_mem_blank b.blank₂ (c := '=') (by decide)
    have h₃ := not_mem_blank b.blank₃ (c := '=') (by decide)
    simp [h₂, h₃]

theorem drop_size (b : BufferForm) : (',' :: b.size).drop (b.gap₂.length + b.gap₃.length + 8 + 1) = b.tail := by
  have hsize : ',' :: b.size = (',' :: (b.gap₂ ++ ("samples".toList ++ (b.gap₃ ++ ['='])))) ++ b.tail := by
    simp [BufferForm.size]
  rw [hsize]
  apply List.drop_left'
  simp
  omega

theorem BufferForm.element_eq (b : BufferForm) :
    (if "number".toList.isPrefixOf b.inner then some ElementType.number
      else if "bool".toList.isPrefixOf b.inner then some .bool
      else if "int".toList.isPrefixOf b.inner then some .int
      else none) = some b.element.element := by
  unfold BufferForm.inner
  cases b.element <;> rfl

theorem parseDeclType_text (b : BufferForm) (hn : numeral b.digits ≠ 0) :
    parseDeclType (some b.text) = some ⟨.buffer, b.element.element, signedValue b.sign (numeral b.digits)⟩ := by
  have hinner : ("buffer<".toList ++ b.inner).drop 7 = b.inner := List.drop_left' rfl
  have hword := buffer_beq b.inner
  have hseries := buffer_not_series b.inner
  have hbuffer := buffer_isPrefixOf b.inner
  have hvalue : (signedValue b.sign (numeral b.digits) == 0) = false := by
    simpa using (signedValue_ne_zero b.sign).mpr hn
  have helement := b.element_eq
  obtain ⟨c, s, ht⟩ : ∃ c s, "buffer<".toList ++ b.inner = c :: s := ⟨'b', _, rfl⟩
  unfold BufferForm.text parseDeclType
  rw [ht] at hinner hword hseries hbuffer ⊢
  simp only [Bool.or_eq_false_iff] at hword
  simp only [hword.1.1, hword.1.2, hword.2, hseries, hbuffer, hinner, b.strchr_inner, b.drop_inner, strchr_size,
    drop_size, b.strtoul_tail, hvalue, helement, Bool.false_eq_true, if_false, if_true, Option.bind_eq_bind,
    Option.bind_some, Option.map_some, Option.getD_some]

theorem Denotes.parse {info : TypeInfo} (h : Denotes t info) : parseDeclType (some t) = some info := by
  cases h with
  | scalar T => cases T <;> rfl
  | series T => cases T <;> rfl
  | buffer b h =>
    rw [parseDeclType_text b (Nat.one_le_iff_ne_zero.mp h.2.1)]
    simp [h.1, signedValue, h.2.2]

/-! ### The two languages -/

theorem series_ne_word : "series<".toList ++ s ≠ T.word := by
  intro h
  have hword := isWord_iff.mpr ⟨T, h⟩
  rw [series_beq] at hword
  exact Bool.noConfusion hword

theorem buffer_ne_word : "buffer<".toList ++ s ≠ T.word := by
  intro h
  have hword := isWord_iff.mpr ⟨T, h⟩
  rw [buffer_beq] at hword
  exact Bool.noConfusion hword

theorem series_ne_buffer : "series<".toList ++ s ≠ "buffer<".toList ++ t := by
  intro h
  have hpre : "series<".toList.isPrefixOf ("buffer<".toList ++ t) = true := isPrefixOf_iff_append.mpr ⟨s, h.symm⟩
  rw [buffer_not_series] at hpre
  exact Bool.noConfusion hpre

theorem Scalar.word_append_inj {U : Scalar} (h : T.word ++ s = U.word ++ t) : T = U ∧ s = t := by
  cases T <;> cases U <;> simp_all [Scalar.word]

theorem size_inj {c : BufferForm} (h : b.text = c.text) : b.size = c.size := by
  have hinner : b.inner = c.inner := List.append_cancel_left h
  have hcomma := b.strchr_inner
  rw [hinner, c.strchr_inner, Option.some_inj] at hcomma
  rw [← b.drop_inner_succ, ← c.drop_inner_succ, hinner, hcomma]

theorem tail_inj {c : BufferForm} (h : b.text = c.text) : b.tail = c.tail := by
  have hsize := size_inj h
  have heq := strchr_size b
  rw [hsize, strchr_size c, Option.some_inj] at heq
  rw [← drop_size b, ← drop_size c, hsize, heq]

theorem dropWhile_unsigned (h : b.sign = []) :
    b.tail.dropWhile isSpace = b.digits ++ (b.gap₅ ++ ['>']) := by
  obtain ⟨c, digits, hd⟩ := List.exists_cons_of_ne_nil b.present
  have hc := b.decimal c (hd ▸ List.mem_cons_self ..)
  rw [BufferForm.tail, h, List.nil_append]
  exact dropWhile_blank b.blank₄ (by simp [hd, not_isSpace_of_isDigit hc])

theorem numeral_inj {c : BufferForm} (h : b.text = c.text) (hb : b.sign = []) :
    c.sign = [] ∧ numeral b.digits = numeral c.digits := by
  have hunsigned := dropWhile_unsigned hb
  have hdigits := digitsValue_append b.decimal b.present (head_blank_close b.blank₅)
  rw [← hunsigned, tail_inj h] at hdigits
  rcases c.signed with hc | hc | hc
  · rw [dropWhile_unsigned hc, digitsValue_append c.decimal c.present (head_blank_close c.blank₅)] at hdigits
    exact ⟨hc, (Prod.mk.inj (Option.some.inj hdigits)).1.symm⟩
  · rw [BufferForm.tail, hc, dropWhile_blank c.blank₄ (by simp [isSpace])] at hdigits
    simp [digitsValue, Char.isDigit] at hdigits
  · rw [BufferForm.tail, hc, dropWhile_blank c.blank₄ (by simp [isSpace])] at hdigits
    simp [digitsValue, Char.isDigit] at hdigits

theorem Loose.not_denotes {info : TypeInfo} (h : Loose t) : ¬Denotes t info := by
  intro hd
  generalize ht : t = u at hd
  cases h with
  | series T junk =>
    cases hd with
    | scalar U => exact series_ne_word ht
    | series U =>
      obtain ⟨-, hclose⟩ := Scalar.word_append_inj (List.append_cancel_left ht)
      simp at hclose
    | buffer b hb => exact series_ne_buffer ht
  | buffer c hn hloose =>
    cases hd with
    | scalar U => exact buffer_ne_word ht
    | series U => exact series_ne_buffer ht.symm
    | buffer b hb =>
      obtain ⟨hsign, hnum⟩ := numeral_inj ht.symm hb.1
      have hle := hb.2.2
      rcases hloose with hne | hlt
      · exact hne hsign
      · omega

/-- An annotation is accepted when it denotes a type, and then it is read as that type. -/
def Faithful (t : Text) : Prop :=
  (typeValid t = true ↔ ∃ info, Denotes t info) ∧
    (typeValid t = true → ∀ info, parseDeclType (some t) = some info ↔ Denotes t info)

theorem Loose.unfaithful (h : Loose t) : ¬Faithful t := by
  rintro ⟨haccept, -⟩
  rw [typeValid_iff] at haccept
  obtain ⟨info, hd⟩ := haccept.mp (.inr h)
  exact h.not_denotes hd

/-- Exactly the loose annotations are accepted without denoting a type. -/
theorem annotation_faithful_iff {t : Text} : Faithful t ↔ ¬Loose t := by
  refine ⟨fun h hloose => hloose.unfaithful h, fun h => ?_⟩
  have haccept : typeValid t = true ↔ ∃ info, Denotes t info := by
    rw [typeValid_iff, or_iff_left h]
  refine ⟨haccept, fun hvalid info => ⟨fun hparse => ?_, Denotes.parse⟩⟩
  obtain ⟨other, hd⟩ := haccept.mp hvalid
  rw [hd.parse, Option.some_inj] at hparse
  exact hparse ▸ hd

def samplesForm (sign digits : Text) (signed : sign = [] ∨ sign = ['+'] ∨ sign = ['-'])
    (decimal : ∀ c ∈ digits, c.isDigit = true) (present : digits ≠ []) : BufferForm where
  element := .number
  gap₁ := []
  gap₂ := [' ']
  gap₃ := [' ']
  gap₄ := [' ']
  gap₅ := []
  sign := sign
  digits := digits
  blank₁ := by simp [Blank]
  blank₂ := by simp [Blank, isSpace]
  blank₃ := by simp [Blank, isSpace]
  blank₄ := by simp [Blank, isSpace]
  blank₅ := by simp [Blank]
  signed := signed
  decimal := decimal
  present := present

theorem annotation_not_faithful :
    ¬Faithful "series<number>x>".toList ∧ ¬Faithful "buffer<number, samples = -1>".toList ∧
      ¬Faithful "buffer<number, samples = 18446744073709551616>".toList := by
  have hjunk : "series<number>x>".toList = "series<".toList ++ (Scalar.number.word ++ '>' :: (['x'] ++ ['>'])) := by
    decide
  have hminus : "buffer<number, samples = -1>".toList =
      (samplesForm ['-'] ['1'] (by simp) (List.all_eq_true.mp (by decide)) (by simp)).text := by
    decide
  have hlarge : "buffer<number, samples = 18446744073709551616>".toList =
      (samplesForm [] "18446744073709551616".toList (by simp) (List.all_eq_true.mp (by decide)) (by decide)).text := by
    decide
  refine ⟨?_, ?_, ?_⟩
  · rw [hjunk]
    exact (Loose.series .number ['x']).unfaithful
  · rw [hminus]
    exact (Loose.buffer _ (by decide) (.inl (by decide))).unfaithful
  · rw [hlarge]
    exact (Loose.buffer _ (by decide) (.inr (by decide))).unfaithful

end Cxpr.Document
