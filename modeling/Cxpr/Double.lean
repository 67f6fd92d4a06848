import Mathlib.Algebra.Ring.Int.Defs
import Mathlib.Algebra.Ring.Nat
import Mathlib.Data.Int.Sqrt

/-! The C `double` as the evaluators use it: its operations are uninterpreted functions, and only the few facts the
    code itself relies on (the truth values of `1.0` and `0.0`, that `==` is symmetric and transitive, and that it
    separates what the sign bit does not) are laws. -/

namespace Cxpr

/-- The floating-point operations of the source, with the laws that hold of them on every IEEE platform. -/
class Double (D : Type) where
  zero : D
  one : D
  add : D → D → D
  sub : D → D → D
  mul : D → D → D
  div : D → D → D
  fmod : D → D → D
  pow : D → D → D
  neg : D → D
  /-- C's `==`. -/
  eq : D → D → Bool
  /-- C's `<`. -/
  lt : D → D → Bool
  /-- C's `<=`. -/
  le : D → D → Bool
  isfinite : D → Bool
  floor : D → D
  ceil : D → D
  round : D → D
  sqrt : D → D
  fabs : D → D
  /-- `0.5`. -/
  half : D
  /-- `1e-9`. -/
  tolerance : D
  isnan : D → Bool
  isinf : D → Bool
  /-- `printf`'s `%a`. -/
  hex : D → String
  /-- `printf`'s `%.*g`, by precision. -/
  formatG : Nat → D → String
  /-- `strtod` on a text that it reads to its end. -/
  strtod : String → Option D
  /-- The object representation, as `cxpr_eval_ast_hash` reads it. -/
  bits : D → UInt64
  /-- A `size_t` as a `double`. -/
  ofNat : Nat → D
  /-- An `int64_t` as a `double`. -/
  ofInt64 : Int64 → D
  llround : D → Int64
  /-- The sign bit, which `==` does not see. -/
  signbit : D → Bool
  /-- The value of a non-negative integral double as a `size_t`. -/
  toSize : D → Nat
  eq_zero_zero : eq zero zero = true
  eq_one_one : eq one one = true
  eq_one_zero : eq one zero = false
  eq_zero_one : eq zero one = false
  eq_of_signbit : ∀ a b, eq a b = true → signbit a = signbit b → a = b
  isnan_eq : ∀ a, isnan a = !eq a a
  eq_symm : ∀ a b, eq a b = true → eq b a = true
  eq_trans : ∀ a b c, eq a b = true → eq b c = true → eq a c = true
  /-- What `==` identifies differs at most in the sign of a zero, which no ordering or conversion sees. -/
  eq_congr : ∀ a b, eq a b = true → isfinite a = isfinite b ∧ toSize a = toSize b ∧
    eq (floor a) a = eq (floor b) b ∧ ∀ c, lt a c = lt b c ∧ le c a = le c b

namespace Double
variable {D : Type} [Double D]

/-- C's `!=`. -/
def ne (a b : D) : Bool := !eq a b

/-- C's `>`. -/
def gt (a b : D) : Bool := lt b a

def ge (a b : D) : Bool := le b a

/-- A C `bool` in a `double` position. -/
def ofBool (b : Bool) : D := if b then one else zero

attribute [simp] eq_zero_zero eq_one_one eq_one_zero eq_zero_one

@[simp] theorem ne_ofBool_zero (b : Bool) : ne (ofBool b : D) zero = b := by
  cases b <;> simp [ne, ofBool]

@[simp] theorem isnan_ofBool (b : Bool) : isnan (ofBool b : D) = false := by
  cases b <;> simp [ofBool, isnan_eq]

@[simp] theorem eq_ofBool (a b : Bool) : eq (ofBool a : D) (ofBool b) = (a == b) := by
  cases a <;> cases b <;> simp [ofBool]

end Double

/-- The integral doubles: `add`, `sub`, `mul` and the comparisons are exact on them, so closed runs of the model can
    be evaluated. -/
instance : Double Int where
  zero := 0
  one := 1
  add := (· + ·)
  sub := (· - ·)
  mul := (· * ·)
  div := Int.tdiv
  fmod := Int.tmod
  pow a b := a ^ b.toNat
  neg a := -a
  eq a b := a == b
  lt a b := decide (a < b)
  le a b := decide (a ≤ b)
  isfinite _ := true
  floor a := a
  ceil a := a
  round a := a
  sqrt a := Int.sqrt a
  fabs a := a.natAbs
  -- adding one half to an integral double never changes its truncation
  half := 0
  tolerance := 0
  isnan _ := false
  isinf _ := false
  hex a := toString a
  formatG _ a := toString a
  strtod := String.toInt?
  bits a := UInt64.ofInt a
  ofNat n := n
  ofInt64 i := i.toInt
  llround a := Int64.ofInt a
  signbit a := decide (a < 0)
  toSize := Int.toNat
  eq_zero_zero := rfl
  eq_one_one := rfl
  eq_one_zero := rfl
  eq_zero_one := rfl
  eq_of_signbit a b h _ := by simpa using h
  isnan_eq a := by simp
  eq_symm a b h := by
    obtain rfl : a = b := by simpa using h
    simp
  eq_trans a b c hab hbc := by
    obtain rfl : a = b := by simpa using hab
    exact hbc
  eq_congr a b h := by
    obtain rfl : a = b := by simpa using h
    simp

end Cxpr
