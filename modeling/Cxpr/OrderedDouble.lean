import Cxpr.Ir.Constant
import Mathlib.Tactic.Linarith
import Mathlib.Tactic.Positivity

/-! Doubles with the order of IEEE arithmetic: rounding is monotone, the integers up to `2^53` are exact, and a conversion
    to `size_t` that is in range cuts off the fraction. -/

namespace Cxpr
open Ir (sizeMax)

/-- `2^53`, up to which the integers are doubles. -/
def exactMax : Nat := 2 ^ 53

/-- A `double` with the order laws of IEEE arithmetic. `Double.ofNat sizeMax` is `2^64`, the first double out of the range
    of a `size_t`. -/
class OrderedDouble (D : Type) extends Double D where
  not_nan_of_le : ∀ {a b : D}, le a b = true → isnan a = false ∧ isnan b = false
  not_nan_of_isfinite : ∀ {a : D}, isfinite a = true → isnan a = false
  le_trans : ∀ {a b c : D}, le a b = true → le b c = true → le a c = true
  le_of_lt : ∀ {a b : D}, lt a b = true → le a b = true
  le_of_not_lt : ∀ {a b : D}, isnan a = false → isnan b = false → lt b a = false → le a b = true
  not_lt_of_le : ∀ {a b : D}, le a b = true → lt b a = false
  ofNat_le : ∀ {m n : Nat}, m ≤ n → le (ofNat m : D) (ofNat n) = true
  ofNat_lt_sizeMax : ∀ {n : Nat}, n ≤ exactMax → lt (ofNat n : D) (ofNat sizeMax) = true
  toSize_ofNat : ∀ {n : Nat}, n ≤ exactMax → toSize (ofNat n : D) = n
  toSize_le : ∀ {a b : D}, le zero a = true → le a b = true → lt b (ofNat sizeMax) = true → toSize a ≤ toSize b
  toSize_le_sizeMax : ∀ {a : D}, le zero a = true → lt a (ofNat sizeMax) = true → toSize a ≤ sizeMax
  le_ofNat_toSize : ∀ {a : D}, eq (floor a) a = true → le zero a = true → lt a (ofNat sizeMax) = true →
    le a (ofNat (toSize a)) = true
  le_ceil : ∀ {a : D}, isnan a = false → le a (ceil a) = true
  floor_ceil : ∀ {a : D}, isfinite (ceil a) = true → eq (floor (ceil a)) (ceil a) = true
  isfinite_of_lt : ∀ {a b : D}, le zero a = true → lt a b = true → isfinite a = true
  floor_le : ∀ {a : D} {n : Nat}, le a (ofNat n) = true → le (floor a) (ofNat n) = true
  ceil_le : ∀ {a : D} {n : Nat}, le a (ofNat n) = true → le (ceil a) (ofNat n) = true
  round_le : ∀ {a : D} {n : Nat}, le a (ofNat n) = true → le (round a) (ofNat n) = true
  add_le : ∀ {a b : D} {m n : Nat}, m ≤ sizeMax → n ≤ sizeMax → le a (ofNat m) = true → le b (ofNat n) = true →
    le (add a b) (add (ofNat m) (ofNat n)) = true
  add_ofNat : ∀ {m n : Nat}, m + n ≤ exactMax → add (ofNat m : D) (ofNat n) = ofNat (m + n)
  sub_le : ∀ {a b : D} {m : Nat}, m ≤ sizeMax → le a (ofNat m) = true → le zero b = true →
    le (sub a b) (ofNat m) = true
  mul_le : ∀ {a b : D} {m n : Nat}, m ≤ sizeMax → n ≤ sizeMax → le a (ofNat m) = true → le b (ofNat n) = true →
    le zero a = true ∨ le zero b = true → isnan (mul a b) = false → le (mul a b) (mul (ofNat m) (ofNat n)) = true
  mul_ofNat : ∀ {m n : Nat}, m ≤ sizeMax → n ≤ sizeMax → m * n ≤ exactMax → mul (ofNat m : D) (ofNat n) = ofNat (m * n)
  div_le : ∀ {a d : D} {m : Nat}, m ≤ sizeMax → le a (ofNat m) = true → lt zero d = true → isfinite d = true →
    le (div a d) (div (ofNat m) d) = true
  div_nonneg : ∀ {d : D} {m : Nat}, m ≤ sizeMax → lt zero d = true → isfinite d = true →
    le zero (div (ofNat m) d) = true

/-- The integral doubles have an exact order. -/
instance : OrderedDouble Int where
  not_nan_of_le _ := ⟨rfl, rfl⟩
  not_nan_of_isfinite _ := rfl
  le_trans := by
    intro a b c hab hbc
    simp only [Double.le, decide_eq_true_eq] at *
    omega
  le_of_lt := by
    intro a b h
    simp only [Double.le, Double.lt, decide_eq_true_eq] at *
    omega
  le_of_not_lt := by
    intro a b _ _ h
    simp only [Double.le, Double.lt, decide_eq_true_eq, decide_eq_false_iff_not] at *
    omega
  not_lt_of_le := by
    intro a b h
    simp only [Double.le, Double.lt, decide_eq_true_eq, decide_eq_false_iff_not] at *
    omega
  ofNat_le := by
    intro m n h
    simpa [Double.le, Double.ofNat] using h
  ofNat_lt_sizeMax := by
    intro n h
    have hlt : n < sizeMax := lt_of_le_of_lt h (by decide)
    simpa [Double.lt, Double.ofNat] using hlt
  toSize_ofNat _ := rfl
  toSize_le := by
    intro a b _ hab _
    exact Int.toNat_le_toNat (by simpa [Double.le] using hab)
  toSize_le_sizeMax := by
    intro a _ ha
    simp only [Double.lt, Double.ofNat, Double.toSize, decide_eq_true_eq] at *
    omega
  le_ofNat_toSize := by
    intro a _ ha _
    simp only [Double.le, Double.ofNat, Double.toSize, decide_eq_true_eq] at *
    omega
  le_ceil _ := by simp [Double.le, Double.ceil]
  floor_ceil _ := by simp [Double.eq, Double.floor, Double.ceil]
  isfinite_of_lt _ _ := rfl
  floor_le h := h
  ceil_le h := h
  round_le h := h
  add_le := by
    intro a b m n _ _ ha hb
    simp only [Double.le, Double.add, Double.ofNat, decide_eq_true_eq] at *
    omega
  add_ofNat _ := by simp [Double.add, Double.ofNat]
  sub_le := by
    intro a b m _ ha hb
    simp only [Double.le, Double.sub, Double.ofNat, Double.zero, decide_eq_true_eq] at *
    omega
  mul_le := by
    intro a b m n _ _ ha hb hsign _
    simp only [Double.le, Double.mul, Double.ofNat, Double.zero, decide_eq_true_eq] at *
    have hm : (0 : Int) ≤ m := Int.natCast_nonneg m
    have hn : (0 : Int) ≤ n := Int.natCast_nonneg n
    rcases hsign with ha0 | hb0
    · calc a * b ≤ a * n := by gcongr
        _ ≤ m * n := by gcongr
    · calc a * b ≤ m * b := by gcongr
        _ ≤ m * n := by gcongr
  mul_ofNat _ _ _ := by simp [Double.mul, Double.ofNat]
  div_le := by
    intro a d m _ ha hd _
    simp only [Double.le, Double.lt, Double.div, Double.ofNat, Double.zero, decide_eq_true_eq] at *
    exact Int.tdiv_le_tdiv hd ha
  div_nonneg := by
    intro d m _ hd _
    simp only [Double.le, Double.lt, Double.div, Double.ofNat, Double.zero, decide_eq_true_eq] at *
    exact Int.tdiv_nonneg (Int.natCast_nonneg m) hd.le

end Cxpr
