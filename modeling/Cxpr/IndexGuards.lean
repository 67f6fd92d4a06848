import Mathlib.Data.Rat.Floor
import Mathlib.Tactic.IntervalCases
import Cxpr.ExactArithmetic
import Cxpr.History
import Cxpr.Ir.Typed

/-! The tests before an index is converted to an integer: `cxpr_eval_array_index` (`src/eval/tree.c`), `CXPR_OP_INDEX`
    (`src/ir/exec/typed.c`), index capabilities (`src/eval/tree.c`) and history sources (`src/history.c`). They compare
    the index with `(double)SIZE_MAX` and `(double)INT64_MAX`, which are the first doubles that do not fit. -/

namespace Cxpr.IndexGuards
open Eval Ir ValuedDouble

/-! ### Doubles with the values of large integers -/

/-- A `double` whose comparisons and `floor` are those of its value. An integer of `k` one bits, more than the 53 of a
    significand, is rounded up. What a conversion to `size_t` gives out of range is not specified. -/
class IndexDouble (D : Type) extends ValuedDouble D where
  isfinite_iff : ∀ {a : D}, isfinite a = true ↔ ∃ q, value a = some q
  lt_iff : ∀ {a b : D} {p q : ℚ}, value a = some p → value b = some q → (lt a b = true ↔ p < q)
  eq_iff : ∀ {a b : D} {p q : ℚ}, value a = some p → value b = some q → (eq a b = true ↔ p = q)
  value_zero : value zero = some 0
  value_floor : ∀ {a : D} {q : ℚ}, value a = some q → value (floor a) = some ⌊q⌋
  value_ofNat_ones : ∀ k, 53 < k → k ≤ 64 → value (ofNat (2 ^ k - 1)) = some (2 ^ k)
  toSize_eq : ∀ {a : D} {n : Nat}, value a = some (n : ℚ) → n < 2 ^ 64 → toSize a = n

def Coarse : Type := Int

def round53 (n : Nat) : Nat := (n + 2 ^ (n.log2 - 52) / 2) / 2 ^ (n.log2 - 52) * 2 ^ (n.log2 - 52)

instance : Double Coarse := { (inferInstance : Double Int) with ofNat := fun n => Int.ofNat (round53 n) }

instance : ValuedDouble Coarse where
  value := ValuedDouble.value (D := Int)
  rounded := ValuedDouble.rounded (D := Int)
  ofInt64_eq := ValuedDouble.ofInt64_eq (D := Int)
  value_ofInt64 := ValuedDouble.value_ofInt64 (D := Int)
  eq_zero_iff := ValuedDouble.eq_zero_iff (D := Int)
  mul_eq := ValuedDouble.mul_eq (D := Int)
  div_eq := ValuedDouble.div_eq (D := Int)
  llround_eq := ValuedDouble.llround_eq (D := Int)

def Coarse.toInt (a : Coarse) : Int := a

variable {a : Coarse}

theorem value_coarse {q : ℚ} : value a = some q ↔ (a.toInt : ℚ) = q := Option.some_inj

theorem value_ofNat_coarse (k : Nat) (h : 53 < k) (h' : k ≤ 64) :
    value (Double.ofNat (2 ^ k - 1) : Coarse) = some (2 ^ k) := by
  have hround : round53 (2 ^ k - 1) = 2 ^ k := by
    interval_cases k <;> decide +kernel
  rw [value_coarse]
  show (((round53 (2 ^ k - 1) : Nat) : Int) : ℚ) = 2 ^ k
  rw [hround]
  push_cast
  rfl

theorem lt_coarse {b : Coarse} {p q : ℚ} (hp : value a = some p) (hq : value b = some q) :
    Double.lt a b = true ↔ p < q := by
  rw [← value_coarse.mp hp, ← value_coarse.mp hq, Int.cast_lt]
  show decide (a.toInt < b.toInt) = true ↔ a.toInt < b.toInt
  exact decide_eq_true_iff

theorem eq_coarse {b : Coarse} {p q : ℚ} (hp : value a = some p) (hq : value b = some q) :
    Double.eq a b = true ↔ p = q := by
  rw [← value_coarse.mp hp, ← value_coarse.mp hq, Int.cast_inj]
  exact beq_iff_eq

theorem floor_coarse {q : ℚ} (h : value a = some q) : value (Double.floor a) = some (⌊q⌋ : ℚ) := by
  rw [← value_coarse.mp h, Int.floor_intCast, value_coarse]
  rfl

theorem toSize_coarse {n : Nat} (h : value a = some (n : ℚ)) (_ : n < 2 ^ 64) : Double.toSize a = n := by
  have hint : a.toInt = n := by exact_mod_cast value_coarse.mp h
  show a.toInt.toNat = n
  rw [hint, Int.toNat_natCast]

instance : IndexDouble Coarse where
  isfinite_iff := iff_of_true rfl ⟨_, rfl⟩
  lt_iff := lt_coarse
  eq_iff := eq_coarse
  value_zero := rfl
  value_floor := floor_coarse
  value_ofNat_ones := value_ofNat_coarse
  toSize_eq := toSize_coarse

section
variable {D : Type}

def element (values : List (Value D)) (i : Nat) : Except Error (Value D) :=
  match values[i]? with
  | some v => .ok v
  | none => .error ⟨.indexOutOfRange, "Array index is out of range"⟩

variable [IndexDouble D]

def Fits (limit : Nat) (d : D) (i : Nat) : Prop := value d = some (i : ℚ) ∧ i ≤ limit

def int64Max : Nat := 2 ^ 63 - 1

/-- A number that a history source gives: a missing one where that is the policy, or one within the source, that many
    positions before the cursor or the first. -/
def ReadsWithin (h : History D) (nan : D) (source : HistorySource D) (cursor offset : Int) (x : D) : Prop :=
  h.policy = .legacyNan ∧ x = nan ∨
    ∃ j : Nat, source.values[j]? = some x ∧ ((j : Int) = cursor - offset ∨ h.policy = .clampFirst ∧ cursor < offset ∧ j = 0)

def Rejects {ε α : Type} (code : ε → ErrorCode) (result : Except ε α) : Prop :=
  ∃ e, result = .error e ∧ code e = .invalidIndex

/-- Each path rejects the double or converts it to the same integer, with which it stays in bounds; and all of them
    reject the same doubles. -/
structure Sufficient (d : D) : Prop where
  tree : ∀ values ctx, Rejects Error.code (arrayIndex values (pure (.number d)) ctx) ∨
    ∃ i, Fits sizeMax d i ∧ arrayIndex values (pure (.number d)) ctx = (element values i).map (·, ctx)
  typed : ∀ values : List (Value D), Rejects (Error.code ∘ Fault.error) (execIndex (.array values) (.number d)) ∨
    ∃ i, Fits sizeMax d i ∧ execIndex (.array values) (.number d) = (element values i).mapError .raised
  capability : Rejects Error.code (capabilityOffset (.number d)) ∨
    ∃ i, Fits int64Max d i ∧ capabilityOffset (.number d) = .ok (i : Int)
  history : Rejects Error.code (History.offsetOf d) ∨
    ∃ i, Fits int64Max d i ∧ History.offsetOf d = .ok (i : Int) ∧
      ∀ (h : History D) nan source cursor x, h.valueAt nan source cursor i = .ok x → ReadsWithin h nan source cursor i x
  same : ∀ values ctx,
    (Rejects Error.code (arrayIndex values (pure (.number d)) ctx) ↔
      Rejects (Error.code ∘ Fault.error) (execIndex (.array values) (.number d))) ∧
    (Rejects Error.code (arrayIndex values (pure (.number d)) ctx) ↔ Rejects Error.code (capabilityOffset (.number d))) ∧
    (Rejects Error.code (capabilityOffset (.number d)) ↔ Rejects Error.code (History.offsetOf d))

def guard (limit : Nat) (d : D) : Bool :=
  !Double.isfinite d || Double.lt d Double.zero || Double.ne (Double.floor d) d || Double.gt d (Double.ofNat limit)

theorem guard_eq_false_iff {k : Nat} (hk : 53 < k) (hk' : k ≤ 64) (d : D) :
    guard (2 ^ k - 1) d = false ↔ ∃ n : Nat, value d = some (n : ℚ) ∧ n ≤ 2 ^ k := by
  have hlimit := IndexDouble.value_ofNat_ones (D := D) k hk hk'
  have hzero := IndexDouble.value_zero (D := D)
  unfold guard
  simp only [Bool.or_eq_false_iff, Bool.not_eq_false', Double.gt, Double.ne, and_assoc]
  constructor
  · rintro ⟨hfinite, hneg, hfloor, hgt⟩
    obtain ⟨q, hq⟩ := IndexDouble.isfinite_iff.mp hfinite
    rw [Bool.eq_false_iff, Ne, IndexDouble.lt_iff hq hzero, not_lt] at hneg
    rw [Bool.eq_false_iff, Ne, IndexDouble.lt_iff hlimit hq, not_lt] at hgt
    rw [IndexDouble.eq_iff (IndexDouble.value_floor hq) hq] at hfloor
    have hnonneg : 0 ≤ ⌊q⌋ := Int.floor_nonneg.mpr hneg
    have hnat : ((⌊q⌋.toNat : Nat) : ℚ) = q := by
      rw [← hfloor]
      exact_mod_cast congrArg (Int.cast (R := ℚ)) (Int.toNat_of_nonneg hnonneg)
    refine ⟨⌊q⌋.toNat, by rw [hnat, hq], ?_⟩
    have hle : ((⌊q⌋.toNat : Nat) : ℚ) ≤ 2 ^ k := hnat.le.trans hgt
    exact_mod_cast hle
  · rintro ⟨n, hn, hle⟩
    have hfloor : value (Double.floor d) = some (n : ℚ) := by
      rw [IndexDouble.value_floor hn, Int.floor_natCast]
      rfl
    refine ⟨IndexDouble.isfinite_iff.mpr ⟨_, hn⟩, ?_, (IndexDouble.eq_iff hfloor hn).mpr rfl, ?_⟩
    · rw [Bool.eq_false_iff, Ne, IndexDouble.lt_iff hn hzero, not_lt]
      exact Nat.cast_nonneg n
    · rw [Bool.eq_false_iff, Ne, IndexDouble.lt_iff hlimit hn, not_lt]
      exact_mod_cast hle

theorem guard_sizeMax_iff (d : D) : guard sizeMax d = false ↔ ∃ n : Nat, value d = some (n : ℚ) ∧ n ≤ 2 ^ 64 :=
  guard_eq_false_iff (k := 64) (by decide) (by decide) d

theorem guard_int64Max_iff (d : D) : guard int64Max d = false ↔ ∃ n : Nat, value d = some (n : ℚ) ∧ n ≤ 2 ^ 63 :=
  guard_eq_false_iff (k := 63) (by decide) (by decide) d

/-! ### The guard in the paths -/

theorem arrayIndex_eq (values : List (Value D)) (d : D) (ctx : Context D) :
    arrayIndex values (pure (.number d)) ctx =
      if guard sizeMax d then .error ⟨.invalidIndex, "Array index must be a finite non-negative integer"⟩
      else (element values (Double.toSize d)).map (·, ctx) := by
  have hindex : constantIndex (some (.number d)) = if guard sizeMax d then none else some (Double.toSize d) := rfl
  unfold arrayIndex
  rw [pure_bind, hindex]
  cases guard sizeMax d with
  | true => rfl
  | false =>
    simp only [Bool.false_eq_true, if_false, element]
    cases values[Double.toSize d]? <;> rfl

theorem execIndex_eq (values : List (Value D)) (d : D) :
    execIndex (.array values) (.number d) =
      if guard sizeMax d then .error (.raised ⟨.invalidIndex, "Array index must be a finite non-negative integer"⟩)
      else (element values (Double.toSize d)).mapError .raised := by
  have hindex : constantIndex (some (.number d)) = if guard sizeMax d then none else some (Double.toSize d) := rfl
  unfold execIndex
  rw [hindex]
  cases guard sizeMax d with
  | true => rfl
  | false =>
    simp only [Bool.false_eq_true, if_false, element]
    cases values[Double.toSize d]? <;> rfl

theorem capabilityOffset_eq (d : D) : capabilityOffset (.number d) =
    if guard int64Max d then .error ⟨.invalidIndex, "Index must be a finite non-negative integer"⟩
    else .ok (Double.toSize d : Int) := rfl

theorem offsetOf_eq (d : D) : History.offsetOf d =
    if guard int64Max d then .error ⟨.invalidIndex, "History offset must be a finite non-negative integer"⟩
    else .ok (Double.toSize d : Int) := rfl

section
omit [IndexDouble D]
variable {ε α : Type} {code : ε → ErrorCode}

theorem rejects_ite {b : Bool} {e : ε} {r : Except ε α} (he : code e = .invalidIndex) (hr : ¬ Rejects code r) :
    Rejects code (if b then .error e else r) ↔ b = true := by
  cases b with
  | true => exact iff_of_true ⟨e, rfl, he⟩ rfl
  | false => exact iff_of_false hr Bool.false_ne_true

theorem not_rejects_ok {a : α} : ¬ Rejects code (.ok a) := by
  rintro ⟨e, he, -⟩
  cases he

theorem not_rejects_element (values : List (Value D)) (i : Nat) (f : Value D → α) :
    ¬ Rejects Error.code ((element values i).map f) := by
  rintro ⟨e, he, hinvalid⟩
  unfold element at he
  cases hget : values[i]? <;> rw [hget] at he <;> cases he
  cases hinvalid

theorem not_rejects_raised (values : List (Value D)) (i : Nat) :
    ¬ Rejects (Error.code ∘ Fault.error) ((element values i).mapError .raised) := by
  rintro ⟨e, he, hinvalid⟩
  unfold element at he
  cases hget : values[i]? <;> rw [hget] at he <;> cases he
  cases hinvalid

end

theorem rejects_tree_iff (values : List (Value D)) (d : D) (ctx : Context D) :
    Rejects Error.code (arrayIndex values (pure (.number d)) ctx) ↔ guard sizeMax d = true := by
  rw [arrayIndex_eq]
  exact rejects_ite rfl (not_rejects_element values _ _)

theorem rejects_typed_iff (values : List (Value D)) (d : D) :
    Rejects (Error.code ∘ Fault.error) (execIndex (.array values) (.number d)) ↔ guard sizeMax d = true := by
  rw [execIndex_eq]
  exact rejects_ite rfl (not_rejects_raised values _)

theorem rejects_capability_iff (d : D) : Rejects Error.code (capabilityOffset (.number d)) ↔ guard int64Max d = true := by
  rw [capabilityOffset_eq]
  exact rejects_ite rfl not_rejects_ok

theorem rejects_history_iff (d : D) : Rejects Error.code (History.offsetOf d) ↔ guard int64Max d = true := by
  rw [offsetOf_eq]
  exact rejects_ite rfl not_rejects_ok

omit [IndexDouble D] in
theorem readsWithin_of_valueAt {h : History D} {nan : D} {source : HistorySource D} {cursor offset : Int} {x : D}
    (hread : h.valueAt nan source cursor offset = .ok x) (hoffset : 0 ≤ offset) :
    ReadsWithin h nan source cursor offset x := by
  unfold History.valueAt at hread
  by_cases hcursor : cursor < 0 ∨ source.values.length ≤ cursor
  · rw [if_pos hcursor] at hread
    cases hpolicy : h.policy <;> rw [hpolicy] at hread <;> cases hread
    exact .inl ⟨hpolicy, rfl⟩
  · rw [if_neg hcursor] at hread
    rw [not_or, not_lt, not_le] at hcursor
    by_cases hposition : cursor - offset < 0
    · rw [if_pos hposition] at hread
      cases hpolicy : h.policy <;> rw [hpolicy] at hread <;> cases hread
      · refine .inr ⟨0, ?_, .inr ⟨hpolicy, by omega, rfl⟩⟩
        rw [List.getD_eq_getElem?_getD, List.getElem?_eq_getElem (by omega), Option.getD_some]
      · exact .inl ⟨hpolicy, rfl⟩
    · rw [if_neg hposition] at hread
      cases hread
      refine .inr ⟨(cursor - offset).toNat, ?_, .inl (by omega)⟩
      rw [List.getD_eq_getElem?_getD, List.getElem?_eq_getElem (by omega), Option.getD_some]

/-- The guards do what they are for but on the integers from `2^63` to `2^64`: the first passes as an `int64_t`, the last
    as a `size_t`, and those between only as a `size_t`. -/
theorem sufficient_iff (d : D) : Sufficient d ↔ ¬ ∃ n : Nat, value d = some (n : ℚ) ∧ 2 ^ 63 ≤ n ∧ n ≤ 2 ^ 64 := by
  have hsize := guard_sizeMax_iff d
  have hint := guard_int64Max_iff d
  constructor
  · rintro h ⟨n, hn, hlow, hhigh⟩
    rcases Nat.eq_or_lt_of_le hlow with rfl | hlow
    · -- passes as an `int64_t`
      have hpass : guard int64Max d = false := hint.mpr ⟨_, hn, le_rfl⟩
      rcases h.capability with hrejects | ⟨i, ⟨hi, hle⟩, -⟩
      · rw [rejects_capability_iff, hpass] at hrejects
        cases hrejects
      · have heq : (i : ℚ) = (2 ^ 63 : Nat) := Option.some.inj (hi.symm.trans hn)
        have heq' : i = 2 ^ 63 := by exact_mod_cast heq
        rw [heq', int64Max] at hle
        exact absurd hle (by decide)
    · have hpass : guard sizeMax d = false := hsize.mpr ⟨n, hn, hhigh⟩
      have hfail : guard int64Max d = true := by
        by_contra hno
        obtain ⟨m, hm, hle⟩ := hint.mp (Bool.eq_false_iff.mpr hno)
        have heq : (m : ℚ) = n := Option.some.inj (hm.symm.trans hn)
        have heq' : m = n := by exact_mod_cast heq
        omega
      have hsame := (h.same [] []).2.1
      rw [rejects_tree_iff, rejects_capability_iff, hpass, hfail] at hsame
      exact absurd (hsame.mpr rfl) Bool.false_ne_true
  · intro hno
    by_cases hpass : guard sizeMax d = false
    · obtain ⟨n, hn, hhigh⟩ := hsize.mp hpass
      have hlow : n < 2 ^ 63 := by
        by_contra hge
        exact hno ⟨n, hn, Nat.not_lt.mp hge, hhigh⟩
      have hpass' : guard int64Max d = false := hint.mpr ⟨n, hn, hlow.le⟩
      have hto : Double.toSize d = n := IndexDouble.toSize_eq hn (by omega)
      refine ⟨?_, ?_, ?_, ?_, ?_⟩
      · intro values ctx
        refine .inr ⟨n, ⟨hn, by unfold sizeMax; omega⟩, ?_⟩
        rw [arrayIndex_eq, hpass, hto]
        rfl
      · intro values
        refine .inr ⟨n, ⟨hn, by unfold sizeMax; omega⟩, ?_⟩
        rw [execIndex_eq, hpass, hto]
        rfl
      · refine .inr ⟨n, ⟨hn, by unfold int64Max; omega⟩, ?_⟩
        rw [capabilityOffset_eq, hpass', hto]
        rfl
      · refine .inr ⟨n, ⟨hn, by unfold int64Max; omega⟩, ?_, ?_⟩
        · rw [offsetOf_eq, hpass', hto]
          rfl
        · intro h nan source cursor x hread
          exact readsWithin_of_valueAt hread (Int.natCast_nonneg n)
      · intro values ctx
        rw [rejects_tree_iff, rejects_typed_iff, rejects_capability_iff, rejects_history_iff, hpass, hpass']
        exact ⟨Iff.rfl, Iff.rfl, Iff.rfl⟩
    · have hfail : guard sizeMax d = true := by simpa using hpass
      have hfail' : guard int64Max d = true := by
        by_contra hno'
        obtain ⟨m, hm, hle⟩ := hint.mp (Bool.eq_false_iff.mpr hno')
        exact hpass (hsize.mpr ⟨m, hm, by omega⟩)
      refine ⟨?_, ?_, .inl ?_, .inl ?_, ?_⟩
      · exact fun values ctx => .inl ((rejects_tree_iff values d ctx).mpr hfail)
      · exact fun values => .inl ((rejects_typed_iff values d).mpr hfail)
      · exact (rejects_capability_iff d).mpr hfail'
      · exact (rejects_history_iff d).mpr hfail'
      · intro values ctx
        rw [rejects_tree_iff, rejects_typed_iff, rejects_capability_iff, rejects_history_iff, hfail, hfail']
        exact ⟨Iff.rfl, Iff.rfl, Iff.rfl⟩

theorem not_sufficient_sizeMax : ¬ Sufficient (Double.ofNat sizeMax : Coarse) := by
  intro h
  have hvalue : value (Double.ofNat sizeMax : Coarse) = some ((2 ^ 64 : Nat) : ℚ) := by
    rw [sizeMax, value_ofNat_coarse 64 (by decide) (by decide)]
    norm_num
  rcases h.tree [] [] with hrejects | ⟨i, ⟨hi, hle⟩, -⟩
  · rw [rejects_tree_iff, (guard_sizeMax_iff _).mpr ⟨_, hvalue, le_rfl⟩] at hrejects
    cases hrejects
  · have heq : (i : ℚ) = (2 ^ 64 : Nat) := Option.some.inj (hi.symm.trans hvalue)
    have heq' : i = 2 ^ 64 := by exact_mod_cast heq
    rw [heq', sizeMax] at hle
    exact absurd hle (by decide)

end
end Cxpr.IndexGuards
