import Mathlib.Data.Nat.Bitwise
import Mathlib.Data.List.Range

/-! Numbers as bytes, the least significant first. -/

namespace LittleEndian

/-- The lowest `n` bytes of a number. -/
def write (n value : Nat) : List UInt8 := (List.range n).map fun i => UInt8.ofNat (value >>> (i * 8))

def read (bytes : List UInt8) : Nat := bytes.zipIdx.foldl (fun value (b, i) => value ||| b.toNat <<< (i * 8)) 0

@[simp] theorem length_write (n value : Nat) : (write n value).length = n := by simp [write]

theorem write_succ (n value : Nat) : write (n + 1) value = write n value ++ [UInt8.ofNat (value >>> (n * 8))] := by
  simp [write, List.range_succ]

theorem read_concat (bytes : List UInt8) (b : UInt8) :
    read (bytes ++ [b]) = read bytes ||| b.toNat <<< (bytes.length * 8) := by
  simp [read, List.zipIdx_append]

theorem read_write (n value : Nat) : read (write n value) = value % 2 ^ (n * 8) := by
  induction n with
  | zero => simp [write, read, Nat.mod_one]
  | succ n ih =>
    rw [write_succ, read_concat, length_write, ih]
    refine Nat.eq_of_testBit_eq fun i => ?_
    have hbyte : (UInt8.ofNat (value >>> (n * 8))).toNat = value >>> (n * 8) % 2 ^ 8 := rfl
    rw [hbyte]
    simp only [Nat.testBit_or, Nat.testBit_mod_two_pow, Nat.testBit_shiftLeft, Nat.testBit_shiftRight]
    rcases Nat.lt_or_ge i (n * 8) with hi | hi
    · simp [hi, Nat.lt_of_lt_of_le hi (Nat.mul_le_mul_right 8 (Nat.le_succ n))]
    · have hsplit : n * 8 + (i - n * 8) = i := Nat.add_sub_of_le hi
      have hlt : i < (n + 1) * 8 ↔ i - n * 8 < 8 := by omega
      simp [Nat.not_lt.mpr hi, hi, hsplit, hlt]

/-- The number in `n` bytes from an offset on. -/
def field (bytes : List UInt8) (offset n : Nat) : Nat := read ((bytes.drop offset).take n)

theorem field_write (n value : Nat) (rest : List UInt8) : field (write n value ++ rest) 0 n = value % 2 ^ (n * 8) := by
  rw [field, List.drop_zero, List.take_left' (length_write n value), read_write]

theorem field_append {front : List UInt8} (rest : List UInt8) {offset : Nat} (n : Nat) (h : front.length ≤ offset) :
    field (front ++ rest) offset n = field rest (offset - front.length) n := by
  rw [field, List.drop_append, List.drop_of_length_le h, List.nil_append, field]

theorem testBit_read (bytes : List UInt8) (i : Nat) :
    (read bytes).testBit i = (bytes.getD (i / 8) 0).toNat.testBit (i % 8) := by
  induction bytes using List.reverseRecOn with
  | nil => simp [read]
  | append_singleton bytes b ih =>
    rw [read_concat, Nat.testBit_or, Nat.testBit_shiftLeft, ih]
    rcases Nat.lt_trichotomy (i / 8) bytes.length with hlt | heq | hgt
    · have hi : ¬ bytes.length * 8 ≤ i := by omega
      rw [List.getD_append _ _ _ _ hlt]
      simp [hi]
    · have hi : bytes.length * 8 ≤ i := by omega
      have hsub : i - bytes.length * 8 = i % 8 := by omega
      rw [List.getD_eq_default _ _ (Nat.le_of_eq heq.symm), List.getD_append_right _ _ _ _ (Nat.le_of_eq heq.symm), heq,
        Nat.sub_self]
      simp [hi, hsub]
    · have hbyte : b.toNat < 2 ^ 8 := b.toNat_lt
      have hhigh : b.toNat.testBit (i - bytes.length * 8) = false :=
        Nat.testBit_lt_two_pow (Nat.lt_of_lt_of_le hbyte (Nat.pow_le_pow_right (by decide) (by omega)))
      rw [List.getD_eq_default _ _ (Nat.le_of_lt hgt), List.getD_eq_default _ _ (by simp; omega), hhigh]
      simp

theorem eq_of_read_eq {bytes bytes' : List UInt8} (hlength : bytes.length = bytes'.length) (h : read bytes = read bytes') :
    bytes = bytes' := by
  refine List.ext_getElem hlength fun k hk hk' => UInt8.toNat_inj.mp (Nat.eq_of_testBit_eq fun j => ?_)
  rcases Nat.lt_or_ge j 8 with hj | hj
  · have hbit := congrArg (·.testBit (k * 8 + j)) h
    have hdiv : (k * 8 + j) / 8 = k := by omega
    have hmod : (k * 8 + j) % 8 = j := by omega
    simp only [testBit_read, hdiv, hmod] at hbit
    rwa [List.getD_eq_getElem _ _ hk, List.getD_eq_getElem _ _ hk'] at hbit
  · have hhigh : ∀ b : UInt8, b.toNat.testBit j = false := fun b =>
      Nat.testBit_lt_two_pow (Nat.lt_of_lt_of_le b.toNat_lt (Nat.pow_le_pow_right (by decide) hj))
    rw [hhigh, hhigh]

theorem field_lt (bytes : List UInt8) (offset n : Nat) : field bytes offset n < 2 ^ (n * 8) := by
  refine Nat.lt_pow_two_of_testBit _ fun i hi => ?_
  rw [field, testBit_read, List.getD_eq_default _ _ (by simp; omega)]
  simp

section
variable {bytes : List UInt8} {offset n i : Nat} {b : UInt8}

theorem field_set_outside (h : i < offset ∨ offset + n ≤ i) : field (bytes.set i b) offset n = field bytes offset n := by
  have hcells : ((bytes.set i b).drop offset).take n = (bytes.drop offset).take n := by
    rcases h with h | h
    · rw [List.drop_set_of_lt h]
    · rw [List.drop_set, if_neg (by omega), List.take_set_of_le (by omega)]
  rw [field, hcells, field]

theorem field_set_inside (hlength : i < bytes.length) (hb : bytes[i]? ≠ some b) (hle : offset ≤ i) (hlt : i < offset + n) :
    field (bytes.set i b) offset n ≠ field bytes offset n := by
  intro h
  have hcells := eq_of_read_eq (by simp) h
  have hcell := congrArg (·[i - offset]?) hcells
  have hinside : offset + (i - offset) = i := by omega
  simp only [List.getElem?_take_of_lt (show i - offset < n by omega), List.getElem?_drop, hinside] at hcell
  rw [List.getElem?_set_self hlength] at hcell
  exact hb hcell.symm

end

end LittleEndian
