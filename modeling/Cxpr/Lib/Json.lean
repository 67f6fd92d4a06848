import Mathlib.Data.List.Basic
import Mathlib.Data.List.Basic

/-! The grammar of JSON texts (RFC 8259), over characters. -/

namespace Json

abbrev Text := List Char

def Blank (s : Text) : Prop := ∀ c ∈ s, c = ' ' ∨ c = '\t' ∨ c = '\n' ∨ c = '\r'

def IsHex (c : Char) : Prop := c.isDigit = true ∨ c ∈ "abcdef".toList ∨ c ∈ "ABCDEF".toList

instance (c : Char) : Decidable (IsHex c) := inferInstanceAs (Decidable (_ ∨ _ ∨ _))

inductive IsChars : Text → Prop
  | nil : IsChars []
  | plain {c : Char} {s : Text} (control : 0x20 ≤ c.toNat) (quote : c ≠ '"') (backslash : c ≠ '\\') (h : IsChars s) :
      IsChars (c :: s)
  | escape {c : Char} {s : Text} (known : c ∈ "\"\\/bfnrt".toList) (h : IsChars s) : IsChars ('\\' :: c :: s)
  | unicode {a b c d : Char} {s : Text} (ha : IsHex a) (hb : IsHex b) (hc : IsHex c) (hd : IsHex d) (h : IsChars s) :
      IsChars ('\\' :: 'u' :: a :: b :: c :: d :: s)

def IsString (s : Text) : Prop := ∃ body, IsChars body ∧ s = '"' :: (body ++ ['"'])

def IsDigits (s : Text) : Prop := s ≠ [] ∧ ∀ c ∈ s, c.isDigit = true

def IsInt (s : Text) : Prop := s = ['0'] ∨ IsDigits s ∧ s.head? ≠ some '0'

def IsFrac (s : Text) : Prop := s = [] ∨ ∃ digits, IsDigits digits ∧ s = '.' :: digits

def IsExp (s : Text) : Prop :=
  s = [] ∨ ∃ e sign digits, (e = 'e' ∨ e = 'E') ∧ (sign = [] ∨ sign = ['+'] ∨ sign = ['-']) ∧ IsDigits digits ∧
    s = e :: (sign ++ digits)

def IsNumber (s : Text) : Prop :=
  ∃ sign int frac exp, (sign = [] ∨ sign = ['-']) ∧ IsInt int ∧ IsFrac frac ∧ IsExp exp ∧
    s = sign ++ (int ++ (frac ++ exp))

mutual

inductive IsValue : Text → Prop
  | null : IsValue "null".toList
  | true : IsValue "true".toList
  | false : IsValue "false".toList
  | number {s : Text} (h : IsNumber s) : IsValue s
  | string {s : Text} (h : IsString s) : IsValue s
  | emptyArray {ws : Text} (h : Blank ws) : IsValue ('[' :: (ws ++ [']']))
  | array {s : Text} (h : IsElements s) : IsValue ('[' :: (s ++ [']']))
  | emptyObject {ws : Text} (h : Blank ws) : IsValue ('\x7b' :: (ws ++ ['\x7d']))
  | object {s : Text} (h : IsMembers s) : IsValue ('\x7b' :: (s ++ ['\x7d']))

inductive IsElements : Text → Prop
  | last {a v b : Text} (ha : Blank a) (hv : IsValue v) (hb : Blank b) : IsElements (a ++ (v ++ b))
  | cons {a v b s : Text} (ha : Blank a) (hv : IsValue v) (hb : Blank b) (h : IsElements s) :
      IsElements (a ++ (v ++ (b ++ ',' :: s)))

inductive IsMembers : Text → Prop
  | last {a k b c v d : Text} (ha : Blank a) (hk : IsString k) (hb : Blank b) (hc : Blank c) (hv : IsValue v)
      (hd : Blank d) : IsMembers (a ++ (k ++ (b ++ ':' :: (c ++ (v ++ d)))))
  | cons {a k b c v d s : Text} (ha : Blank a) (hk : IsString k) (hb : Blank b) (hc : Blank c) (hv : IsValue v)
      (hd : Blank d) (h : IsMembers s) : IsMembers (a ++ (k ++ (b ++ ':' :: (c ++ (v ++ (d ++ ',' :: s))))))

end

def IsJson (s : Text) : Prop := ∃ a v b, Blank a ∧ IsValue v ∧ Blank b ∧ s = a ++ (v ++ b)

variable {s t : Text}

theorem blank_nil : Blank [] := by simp [Blank]

theorem blank_space : Blank [' '] := by simp [Blank]

theorem IsValue.isJson (h : IsValue s) : IsJson s := ⟨[], s, [], blank_nil, h, blank_nil, by simp⟩

theorem IsChars.append (hs : IsChars s) (ht : IsChars t) : IsChars (s ++ t) := by
  induction hs with
  | nil => exact ht
  | plain control quote backslash _ ih => exact .plain control quote backslash ih
  | escape known _ ih => exact .escape known ih
  | unicode ha hb hc hd _ ih => exact .unicode ha hb hc hd ih

theorem IsChars.flatMap {α : Type} {f : α → Text} (h : ∀ a, IsChars (f a)) (as : List α) : IsChars (as.flatMap f) := by
  induction as with
  | nil => exact .nil
  | cons a as ih => exact (h a).append ih

theorem IsDigits.isNumber_char (h : IsDigits s) : ∀ c ∈ s, c ≠ ' ' := by
  rintro c hc rfl
  exact absurd (h.2 _ hc) (by decide)

theorem IsNumber.space_not_mem (h : IsNumber s) : ' ' ∉ s := by
  obtain ⟨sign, int, frac, exp, hsign, hint, hfrac, hexp, rfl⟩ := h
  simp only [List.mem_append, not_or]
  refine ⟨?_, ?_, ?_, ?_⟩
  · rcases hsign with rfl | rfl <;> simp
  · rcases hint with rfl | ⟨hdigits, -⟩
    · simp
    · exact fun hc => hdigits.isNumber_char _ hc rfl
  · rcases hfrac with rfl | ⟨digits, hdigits, rfl⟩
    · simp
    · simpa using fun hc => hdigits.isNumber_char _ hc rfl
  · rcases hexp with rfl | ⟨e, sign, digits, he, hsign, hdigits, rfl⟩
    · simp
    · have hdigit : ' ' ∉ digits := fun hc => hdigits.isNumber_char _ hc rfl
      rcases he with rfl | rfl <;> rcases hsign with rfl | rfl | rfl <;> simp [hdigit]

theorem append_space_inj {rest rest' : Text} (hs : ' ' ∉ s) (ht : ' ' ∉ t) (h : s ++ ' ' :: rest = t ++ ' ' :: rest') :
    s = t ∧ rest = rest' := by
  have htake : ∀ (rest : Text) {s : Text}, ' ' ∉ s → (s ++ ' ' :: rest).takeWhile (· != ' ') = s := by
    intro rest s hs
    rw [List.takeWhile_append_of_pos]
    · simp
    · intro c hc
      rw [bne_iff_ne]
      rintro rfl
      exact hs hc
  obtain rfl : s = t := by rw [← htake rest hs, h, htake _ ht]
  exact ⟨rfl, (List.cons.inj (List.append_cancel_left h)).2⟩

theorem head_toDigits {n : Nat} (hpos : 0 < n) : (Nat.toDigits 10 n).head? ≠ some '0' := by
  induction n using Nat.strongRecOn with
  | ind n ih =>
    rw [Nat.toDigits_eq_if (by decide)]
    split
    · rename_i hlt
      have hdigit : ∀ d < 10, 0 < d → Nat.digitChar d ≠ '0' := by decide
      simpa using hdigit n hlt hpos
    · rename_i hge
      rw [List.head?_append_of_ne_nil _ Nat.toDigits_ne_nil]
      exact ih (n / 10) (by omega) (by omega)

theorem isInt_toDigits (n : Nat) : IsInt (Nat.toDigits 10 n) := by
  rcases Nat.eq_zero_or_pos n with rfl | hpos
  · exact .inl (Nat.toDigits_zero 10)
  · exact .inr ⟨⟨Nat.toDigits_ne_nil, fun c hc => Nat.isDigit_of_mem_toDigits (by decide) (by decide) hc⟩,
      head_toDigits hpos⟩

theorem IsInt.isNumber {sign : Text} (h : IsInt s) (hsign : sign = [] ∨ sign = ['-']) : IsNumber (sign ++ s) :=
  ⟨sign, s, [], [], hsign, h, .inl rfl, .inl rfl, by simp⟩

theorem toList_repr_ofNat (n : Nat) : (Int.repr (.ofNat n)).toList = Nat.toDigits 10 n := by
  rw [Int.repr, Nat.toList_repr]

theorem toList_repr_negSucc (n : Nat) : (Int.repr (.negSucc n)).toList = '-' :: Nat.toDigits 10 (n + 1) := by
  rw [Int.repr, String.toList_append, Nat.toList_repr]
  rfl

theorem isNumber_repr (i : Int) : IsNumber i.repr.toList := by
  cases i with
  | ofNat n =>
    rw [toList_repr_ofNat]
    exact (isInt_toDigits n).isNumber (.inl rfl)
  | negSucc n =>
    rw [toList_repr_negSucc]
    exact (isInt_toDigits (n + 1)).isNumber (.inr rfl)

theorem toDigits_inj {m n : Nat} (h : Nat.toDigits 10 m = Nat.toDigits 10 n) : m = n := by
  rw [← @Nat.ofDigitChars_ten_toDigits m, h, Nat.ofDigitChars_ten_toDigits]

theorem minus_ne_toDigits {m n : Nat} : '-' :: Nat.toDigits 10 m ≠ Nat.toDigits 10 n := by
  intro h
  have hdigit : Char.isDigit '-' = true :=
    Nat.isDigit_of_mem_toDigits (by decide) (by decide) (h ▸ List.mem_cons_self ..)
  exact absurd hdigit (by decide)

theorem toList_repr_inj {i j : Int} (h : i.repr.toList = j.repr.toList) : i = j := by
  cases i with
  | ofNat m =>
    cases j with
    | ofNat n =>
      rw [toList_repr_ofNat, toList_repr_ofNat] at h
      rw [toDigits_inj h]
    | negSucc n =>
      rw [toList_repr_ofNat, toList_repr_negSucc] at h
      exact absurd h.symm minus_ne_toDigits
  | negSucc m =>
    cases j with
    | ofNat n =>
      rw [toList_repr_ofNat, toList_repr_negSucc] at h
      exact absurd h minus_ne_toDigits
    | negSucc n =>
      rw [toList_repr_negSucc, toList_repr_negSucc] at h
      rw [Nat.succ.inj (toDigits_inj (List.cons.inj h).2)]

end Json
