import Mathlib.Data.Rat.Floor
import Cxpr.ValueOps

/-! Which results of `cxpr_value_binary_op` are exact. Sums and differences of timestamps and durations have no overflow
    check; a duration is converted to a double before it is multiplied or divided, and the product is rounded and then
    converted back. -/

namespace Cxpr
open ValueOps

def InRange (n : Int) : Prop := Int64.minValue.toInt ≤ n ∧ n ≤ Int64.maxValue.toInt

instance (n : Int) : Decidable (InRange n) := inferInstanceAs (Decidable (_ ∧ _))

theorem inRange_toInt (i : Int64) : InRange i.toInt := ⟨i.minValue_le_toInt, i.toInt_le⟩

def nearest (q : ℚ) : Int := if 0 ≤ q then ⌊q + 1 / 2⌋ else ⌈q - 1 / 2⌉

/-- A `double` with its value, which infinities and NaN do not have. Every operation rounds its exact result; what
    `llround` returns for a value out of range is not specified. -/
class ValuedDouble (D : Type) extends Double D where
  value : D → Option ℚ
  rounded : ℚ → D
  ofInt64_eq : ∀ i, ofInt64 i = rounded i.toInt
  value_ofInt64 : ∀ i, ∃ q, value (ofInt64 i) = some q ∧ (q = 0 → i = 0)
  eq_zero_iff : ∀ {a : D} {q : ℚ}, value a = some q → (eq a zero = true ↔ q = 0)
  mul_eq : ∀ {a b : D} {p q : ℚ}, value a = some p → value b = some q → mul a b = rounded (p * q)
  div_eq : ∀ {a b : D} {p q : ℚ}, value a = some p → value b = some q → q ≠ 0 → div a b = rounded (p / q)
  llround_eq : ∀ {a : D} {q : ℚ}, value a = some q → InRange (nearest q) → (llround a).toInt = nearest q

theorem nearest_intCast (n : Int) : nearest n = n := by
  unfold nearest
  split
  · rw [Int.floor_eq_iff]
    constructor <;> norm_num
  · rw [Int.ceil_eq_iff]
    constructor <;> norm_num

theorem toInt_ofInt_of_inRange {n : Int} (h : InRange n) : (Int64.ofInt n).toInt = n :=
  Int64.toInt_ofInt_of_le h.1 (Int.lt_of_le_of_lt h.2 (by decide))

theorem tdiv_eq_num_tdiv_den (a : Int) {b : Int} (hb : b ≠ 0) : a.tdiv b = ((a : ℚ) / b).num.tdiv ((a : ℚ) / b).den := by
  obtain ⟨c, hnum, hden⟩ := Rat.exists_eq_mul_div_num_and_eq_mul_div_den a hb
  rcases lt_trichotomy c 0 with hneg | rfl | hpos
  · have hmul := Int.mul_tdiv_mul_of_pos (((a : ℚ) / b).num) (((a : ℚ) / b).den) (Int.neg_pos_of_neg hneg)
    rw [Int.neg_mul, Int.neg_mul, ← hnum, ← hden, Int.neg_tdiv, Int.tdiv_neg, neg_neg] at hmul
    exact hmul
  · rw [zero_mul] at hden
    exact absurd hden hb
  · have hmul := Int.mul_tdiv_mul_of_pos (((a : ℚ) / b).num) (((a : ℚ) / b).den) hpos
    rwa [← hnum, ← hden] at hmul

/-- The integral doubles cut off the fraction of a result. -/
instance : ValuedDouble Int where
  value a := some a
  rounded q := q.num.tdiv q.den
  ofInt64_eq i := by simp [Double.ofInt64]
  value_ofInt64 i := ⟨i.toInt, rfl, fun h => by
    have hzero : i.toInt = 0 := by exact_mod_cast h
    exact Int64.toInt_inj.mp hzero⟩
  eq_zero_iff h := by
    cases h
    simp [Double.eq, Double.zero]
  mul_eq ha hb := by
    cases ha
    cases hb
    show _ = ((_ : Int) * (_ : Int) : ℚ).num.tdiv ((_ : Int) * (_ : Int) : ℚ).den
    rw [← Int.cast_mul, Rat.num_intCast, Rat.den_intCast, Nat.cast_one, Int.tdiv_one]
    rfl
  div_eq ha hb hq := by
    cases ha
    cases hb
    exact tdiv_eq_num_tdiv_den _ (by exact_mod_cast hq)
  llround_eq h hrange := by
    cases h
    rw [nearest_intCast] at hrange ⊢
    exact toInt_ofInt_of_inRange hrange

namespace ValueOps
open ValuedDouble
variable {D : Type} [ValuedDouble D]

omit [ValuedDouble D] in
def ExactOrder (op : ValOp) (x y : Int) (r : Value D) : Prop :=
  match op with
  | .lt => r = .bool (decide (x < y))
  | .lte => r = .bool (decide (x ≤ y))
  | .gt => r = .bool (decide (y < x))
  | .gte => r = .bool (decide (y ≤ x))
  | _ => False

/-- The result is the exact one, of the type that goes with the operands. The quotient of two durations is a number, the
    double next to the exact quotient. Nothing is said of other operands. -/
def ExactScalar (op : ValOp) : Value D → Value D → Value D → Prop
  | .int64 x, .int64 y, r =>
    match op with
    | .add => ∃ n, r = .int64 n ∧ n.toInt = x.toInt + y.toInt
    | .sub => ∃ n, r = .int64 n ∧ n.toInt = x.toInt - y.toInt
    | .mul => ∃ n, r = .int64 n ∧ n.toInt = x.toInt * y.toInt
    | .div => ∃ n, r = .int64 n ∧ n.toInt = x.toInt.tdiv y.toInt
    | op => ExactOrder op x.toInt y.toInt r
  | .timestamp x, .duration y, r =>
    match op with
    | .add => ∃ n, r = .timestamp n ∧ n.toInt = x.toInt + y.toInt
    | .sub => ∃ n, r = .timestamp n ∧ n.toInt = x.toInt - y.toInt
    | _ => False
  | .duration x, .timestamp y, r =>
    match op with
    | .add => ∃ n, r = .timestamp n ∧ n.toInt = x.toInt + y.toInt
    | _ => False
  | .timestamp x, .timestamp y, r =>
    match op with
    | .sub => ∃ n, r = .duration n ∧ n.toInt = x.toInt - y.toInt
    | op => ExactOrder op x.toInt y.toInt r
  | .duration x, .duration y, r =>
    match op with
    | .add => ∃ n, r = .duration n ∧ n.toInt = x.toInt + y.toInt
    | .sub => ∃ n, r = .duration n ∧ n.toInt = x.toInt - y.toInt
    | .div => r = .number (rounded (x.toInt / y.toInt))
    | op => ExactOrder op x.toInt y.toInt r
  | .duration x, .number y, r =>
    match op with
    | .mul => ∀ q, value y = some q → ∃ n, r = .duration n ∧ n.toInt = nearest (x.toInt * q)
    | .div => ∀ q, value y = some q → ∃ n, r = .duration n ∧ n.toInt = nearest (x.toInt / q)
    | _ => False
  | .number x, .duration y, r =>
    match op with
    | .mul => ∀ q, value x = some q → ∃ n, r = .duration n ∧ n.toInt = nearest (q * y.toInt)
    | _ => False
  | _, _, _ => True

/-- The double rounds to the same integer as the exact number. Out of the range of `llround` that is a matter of chance. -/
def RoundsTo (d : D) (exact : ℚ) : Prop :=
  match value d with
  | some r => if InRange (nearest r) then nearest r = nearest exact else (Double.llround d).toInt = nearest exact
  | none => (Double.llround d).toInt = nearest exact

/-- What an exact result asks of the operands: a sum or difference fits into an int64, and neither the conversion of a
    duration to a double nor the rounding of a product or quotient changes the result. -/
def Meets (op : ValOp) : Value D → Value D → Prop
  | .timestamp x, .duration y | .duration x, .timestamp y =>
    (op = .add → InRange (x.toInt + y.toInt)) ∧ (op = .sub → InRange (x.toInt - y.toInt))
  | .timestamp x, .timestamp y => op = .sub → InRange (x.toInt - y.toInt)
  | .duration x, .duration y =>
    (op = .add → InRange (x.toInt + y.toInt)) ∧ (op = .sub → InRange (x.toInt - y.toInt)) ∧
      (op = .div → ∀ p q, value (Double.ofInt64 x : D) = some p → value (Double.ofInt64 y : D) = some q →
        rounded (p / q) = (rounded (x.toInt / y.toInt) : D))
  | .duration x, .number y => ∀ p q, value (Double.ofInt64 x : D) = some p → value y = some q →
      (op = .mul → RoundsTo (rounded (p * q) : D) (x.toInt * q)) ∧ (op = .div → RoundsTo (rounded (p / q) : D) (x.toInt / q))
  | .number x, .duration y => ∀ p q, value x = some p → value (Double.ofInt64 y : D) = some q →
      (op = .mul → RoundsTo (rounded (p * q) : D) (p * y.toInt))
  | _, _ => True

omit [ValuedDouble D] in
def isStruct : Value D → Bool
  | .struct _ => true
  | _ => false

inductive Exact (op : ValOp) : Value D → Value D → Value D → Prop
  | scalar {a b r : Value D} (ha : isStruct a = false) (hb : isStruct b = false) (h : ExactScalar op a b r) : Exact op a b r
  | structs {fs gs rs : List (String × Value D)} (hnames : rs.map (·.1) = fs.map (·.1))
      (h : ∀ e ∈ fs.zip rs, ∀ w, structGetField gs e.1.1 = some w → Exact op e.1.2 w e.2.2) :
      Exact op (.struct fs) (.struct gs) (.struct rs)
  | left {fs rs : List (String × Value D)} {b : Value D} (hb : isStruct b = false) (hnames : rs.map (·.1) = fs.map (·.1))
      (h : ∀ e ∈ fs.zip rs, Exact op e.1.2 b e.2.2) : Exact op (.struct fs) b (.struct rs)
  | right {gs rs : List (String × Value D)} {a : Value D} (ha : isStruct a = false) (hnames : rs.map (·.1) = gs.map (·.1))
      (h : ∀ e ∈ gs.zip rs, Exact op a e.1.2 e.2.2) : Exact op a (.struct gs) (.struct rs)

inductive Pair : Value D → Value D → Value D → Value D → Prop
  | scalar {a b : Value D} (ha : isStruct a = false) (hb : isStruct b = false) : Pair a b a b
  | structs {fs gs : List (String × Value D)} {f : String × Value D} {w x y : Value D} (hf : f ∈ fs)
      (hw : structGetField gs f.1 = some w) (h : Pair f.2 w x y) : Pair (.struct fs) (.struct gs) x y
  | left {fs : List (String × Value D)} {f : String × Value D} {b x y : Value D} (hb : isStruct b = false) (hf : f ∈ fs)
      (h : Pair f.2 b x y) : Pair (.struct fs) b x y
  | right {gs : List (String × Value D)} {g : String × Value D} {a x y : Value D} (ha : isStruct a = false) (hg : g ∈ gs)
      (h : Pair a g.2 x y) : Pair a (.struct gs) x y

/-! ### Scalars -/

section
variable {op : ValOp} {a b r : Value D}

omit [ValuedDouble D] in
theorem int64Checked_eq_ok {exact : Int} {message : String} (h : int64Checked exact message = some (.ok r)) :
    ∃ n : Int64, r = .int64 n ∧ n.toInt = exact := by
  unfold int64Checked at h
  split at h
  · cases h
  · rename_i hrange
    simp only [Bool.or_eq_true, decide_eq_true_eq, not_or, not_lt] at hrange
    cases h
    exact ⟨_, rfl, toInt_ofInt_of_inRange hrange⟩

variable {x y : Int64}

omit [ValuedDouble D] in
theorem exactOrder_int64 (x y : Int64) :
    ExactOrder .lt x.toInt y.toInt (.bool (x < y) : Value D) ∧ ExactOrder .lte x.toInt y.toInt (.bool (x ≤ y) : Value D) ∧
      ExactOrder .gt x.toInt y.toInt (.bool (y < x) : Value D) ∧ ExactOrder .gte x.toInt y.toInt (.bool (y ≤ x) : Value D) := by
  simp [ExactOrder, Int64.lt_iff_toInt_lt, Int64.le_iff_toInt_le]

theorem exact_int64BinaryOp (h : int64BinaryOp op x y = some (.ok r)) :
    ExactScalar op (.int64 x) (.int64 y) r := by
  cases op with
  | add | sub | mul => exact int64Checked_eq_ok h
  | div =>
    simp only [int64BinaryOp] at h
    split at h
    · cases h
    · exact int64Checked_eq_ok h
  | lt | lte | gt | gte =>
    obtain rfl := Except.ok.inj (Option.some.inj h)
    obtain ⟨hlt, hlte, hgt, hgte⟩ := exactOrder_int64 (D := D) x y
    assumption

theorem toInt_add_iff (x y : Int64) : (x + y).toInt = x.toInt + y.toInt ↔ InRange (x.toInt + y.toInt) := by
  constructor
  · intro h
    rw [← h]
    exact inRange_toInt _
  · intro h
    rw [← toInt_ofInt_of_inRange h, Int64.ofInt_add, Int64.ofInt_toInt, Int64.ofInt_toInt]

theorem toInt_sub_iff (x y : Int64) : (x - y).toInt = x.toInt - y.toInt ↔ InRange (x.toInt - y.toInt) := by
  constructor
  · intro h
    rw [← h]
    exact inRange_toInt _
  · intro h
    rw [← toInt_ofInt_of_inRange h, Int64.ofInt_sub, Int64.ofInt_toInt, Int64.ofInt_toInt]

theorem toInt_llround_iff (d : D) (exact : ℚ) : (Double.llround d).toInt = nearest exact ↔ RoundsTo d exact := by
  unfold RoundsTo
  cases hvalue : value d with
  | none => rfl
  | some q =>
    dsimp only
    split
    · rename_i hrange
      rw [ValuedDouble.llround_eq hvalue hrange]
    · rfl

omit [ValuedDouble D] in
theorem exact_add_iff {f : Int64 → Value D} (hf : Function.Injective f) (x y : Int64) :
    (∃ n, f (x + y) = f n ∧ n.toInt = x.toInt + y.toInt) ↔ InRange (x.toInt + y.toInt) := by
  rw [← toInt_add_iff]
  exact ⟨fun ⟨n, hn, hexact⟩ => hf hn ▸ hexact, fun hexact => ⟨_, rfl, hexact⟩⟩

omit [ValuedDouble D] in
theorem exact_sub_iff {f : Int64 → Value D} (hf : Function.Injective f) (x y : Int64) :
    (∃ n, f (x - y) = f n ∧ n.toInt = x.toInt - y.toInt) ↔ InRange (x.toInt - y.toInt) := by
  rw [← toInt_sub_iff]
  exact ⟨fun ⟨n, hn, hexact⟩ => hf hn ▸ hexact, fun hexact => ⟨_, rfl, hexact⟩⟩

theorem exact_llround_iff (d : D) (exact : ℚ) :
    (∃ n, (.duration (Double.llround d) : Value D) = .duration n ∧ n.toInt = nearest exact) ↔ RoundsTo d exact := by
  rw [← toInt_llround_iff]
  exact ⟨fun ⟨n, hn, hexact⟩ => Value.duration.inj hn ▸ hexact, fun hexact => ⟨_, rfl, hexact⟩⟩

omit [ValuedDouble D] in
theorem timestamp_injective : Function.Injective (Value.timestamp : Int64 → Value D) := fun _ _ => Value.timestamp.inj

omit [ValuedDouble D] in
theorem duration_injective : Function.Injective (Value.duration : Int64 → Value D) := fun _ _ => Value.duration.inj

theorem exact_timestamp_duration (h : temporalBinaryOp op (.timestamp x : Value D) (.duration y) = some (.ok r)) :
    ExactScalar op (.timestamp x) (.duration y) r ↔ Meets op (.timestamp x : Value D) (.duration y) := by
  cases op with
  | add =>
    obtain rfl := Except.ok.inj (Option.some.inj h)
    exact (exact_add_iff timestamp_injective x y).trans ⟨fun h => ⟨fun _ => h, fun hop => by cases hop⟩, fun h => h.1 rfl⟩
  | sub =>
    obtain rfl := Except.ok.inj (Option.some.inj h)
    exact (exact_sub_iff timestamp_injective x y).trans ⟨fun h => ⟨fun hop => (by cases hop), fun _ => h⟩, fun h => h.2 rfl⟩
  | mul | div | lt | lte | gt | gte => cases h

theorem exact_duration_timestamp (h : temporalBinaryOp op (.duration x : Value D) (.timestamp y) = some (.ok r)) :
    ExactScalar op (.duration x) (.timestamp y) r ↔ Meets op (.duration x : Value D) (.timestamp y) := by
  cases op with
  | add =>
    obtain rfl := Except.ok.inj (Option.some.inj h)
    exact (exact_add_iff timestamp_injective x y).trans ⟨fun h => ⟨fun _ => h, fun hop => by cases hop⟩, fun h => h.1 rfl⟩
  | sub | mul | div | lt | lte | gt | gte => cases h

theorem exact_timestamps (h : temporalBinaryOp op (.timestamp x : Value D) (.timestamp y) = some (.ok r)) :
    ExactScalar op (.timestamp x) (.timestamp y) r ↔ Meets op (.timestamp x : Value D) (.timestamp y) := by
  cases op with
  | sub =>
    obtain rfl := Except.ok.inj (Option.some.inj h)
    exact (exact_sub_iff duration_injective x y).trans ⟨fun h _ => h, fun h => h rfl⟩
  | lt | lte | gt | gte =>
    obtain rfl := Except.ok.inj (Option.some.inj h)
    obtain ⟨hlt, hlte, hgt, hgte⟩ := exactOrder_int64 (D := D) x y
    exact iff_of_true (by assumption) fun hop => by cases hop
  | add | mul | div => cases h

theorem exact_durations (h : temporalBinaryOp op (.duration x : Value D) (.duration y) = some (.ok r)) :
    ExactScalar op (.duration x) (.duration y) r ↔ Meets op (.duration x : Value D) (.duration y) := by
  cases op with
  | add =>
    obtain rfl := Except.ok.inj (Option.some.inj h)
    simpa [ExactScalar, Meets] using exact_add_iff (duration_injective (D := D)) x y
  | sub =>
    obtain rfl := Except.ok.inj (Option.some.inj h)
    simpa [ExactScalar, Meets] using exact_sub_iff (duration_injective (D := D)) x y
  | div =>
    simp only [temporalBinaryOp] at h
    split at h
    · cases h
    · rename_i hy
      obtain rfl := Except.ok.inj (Option.some.inj h)
      obtain ⟨p, hp, -⟩ := value_ofInt64 (D := D) x
      obtain ⟨q, hq, hzero⟩ := value_ofInt64 (D := D) y
      have hne : q ≠ 0 := fun h0 => hy (by simp [hzero h0])
      have hdiv : Double.div (Double.ofInt64 x) (Double.ofInt64 y) = (rounded (p / q) : D) := div_eq hp hq hne
      simp [ExactScalar, Meets, hp, hq, hdiv]
  | lt | lte | gt | gte =>
    obtain rfl := Except.ok.inj (Option.some.inj h)
    obtain ⟨hlt, hlte, hgt, hgte⟩ := exactOrder_int64 (D := D) x y
    simp only [ExactScalar, Meets, reduceCtorEq, false_implies, and_true, iff_true]
    assumption
  | mul => cases h

theorem exact_duration_number {y : D} (h : temporalBinaryOp op (.duration x) (.number y) = some (.ok r)) :
    ExactScalar op (.duration x) (.number y) r ↔ Meets op (.duration x) (.number y) := by
  obtain ⟨p, hp, -⟩ := value_ofInt64 (D := D) x
  cases op with
  | mul =>
    obtain rfl := Except.ok.inj (Option.some.inj h)
    constructor
    · intro hexact p' q hp' hq
      obtain rfl : p = p' := Option.some.inj (hp.symm.trans hp')
      rw [← mul_eq hp hq]
      exact ⟨fun _ => (exact_llround_iff _ _).mp (hexact q hq), nofun⟩
    · intro hmeets q hq
      rw [exact_llround_iff, mul_eq hp hq]
      exact (hmeets p q hp hq).1 rfl
  | div =>
    simp only [temporalBinaryOp] at h
    split at h
    · cases h
    · rename_i hy
      have hne : ∀ q, value y = some q → q ≠ 0 := fun q hq h0 => hy ((eq_zero_iff hq).mpr h0)
      obtain rfl := Except.ok.inj (Option.some.inj h)
      constructor
      · intro hexact p' q hp' hq
        obtain rfl : p = p' := Option.some.inj (hp.symm.trans hp')
        rw [← div_eq hp hq (hne q hq)]
        exact ⟨nofun, fun _ => (exact_llround_iff _ _).mp (hexact q hq)⟩
      · intro hmeets q hq
        rw [exact_llround_iff, div_eq hp hq (hne q hq)]
        exact (hmeets p q hp hq).2 rfl
  | add | sub | lt | lte | gt | gte => cases h

theorem exact_number_duration {x : D} (h : temporalBinaryOp op (.number x) (.duration y) = some (.ok r)) :
    ExactScalar op (.number x) (.duration y) r ↔ Meets op (.number x) (.duration y) := by
  obtain ⟨q, hq, -⟩ := value_ofInt64 (D := D) y
  cases op with
  | mul =>
    obtain rfl := Except.ok.inj (Option.some.inj h)
    constructor
    · intro hexact p q' hp hq' _
      obtain rfl : q = q' := Option.some.inj (hq.symm.trans hq')
      rw [← mul_eq hp hq]
      exact (exact_llround_iff _ _).mp (hexact p hp)
    · intro hmeets p hp
      rw [exact_llround_iff, mul_eq hp hq]
      exact hmeets p q hp hq rfl
  | add | sub | div | lt | lte | gt | gte => cases h

theorem exactScalar_iff (h : scalarBinaryOp op a b = some (.ok r)) : ExactScalar op a b r ↔ Meets op a b := by
  cases a with
  | int64 x =>
    cases b with
    | int64 y => exact iff_of_true (exact_int64BinaryOp h) trivial
    | timestamp y | duration y => cases h
    | number | bool | struct | string | null | array => exact Iff.rfl
  | timestamp x =>
    cases b with
    | timestamp y => exact exact_timestamps h
    | duration y => exact exact_timestamp_duration h
    | int64 | number | bool | struct | string | null | array => exact Iff.rfl
  | duration x =>
    cases b with
    | timestamp y => exact exact_duration_timestamp h
    | duration y => exact exact_durations h
    | number y => exact exact_duration_number h
    | int64 | bool | struct | string | null | array => exact Iff.rfl
  | number x =>
    cases b with
    | duration y => exact exact_number_duration h
    | int64 | number | timestamp | bool | struct | string | null | array => exact Iff.rfl
  | bool | struct | string | null | array => cases b <;> exact Iff.rfl

/-! ### Structs -/

omit [ValuedDouble D] in
theorem pair_scalar_iff {x y : Value D} (ha : isStruct a = false) (hb : isStruct b = false) : Pair a b x y ↔ x = a ∧ y = b := by
  constructor
  · intro h
    cases h with
    | scalar => exact ⟨rfl, rfl⟩
    | structs | left => cases ha
    | right => cases hb
  · rintro ⟨rfl, rfl⟩
    exact .scalar ha hb

theorem exact_scalar_iff (ha : isStruct a = false) (hb : isStruct b = false) (h : scalarBinaryOp op a b = some (.ok r)) :
    Exact op a b r ↔ ∀ x y, Pair a b x y → Meets op x y := by
  rw [show Exact op a b r ↔ ExactScalar op a b r from ⟨fun hexact => ?_, .scalar ha hb⟩, exactScalar_iff h]
  · constructor
    · intro hmeets x y hpair
      obtain ⟨rfl, rfl⟩ := (pair_scalar_iff ha hb).mp hpair
      exact hmeets
    · intro hmeets
      exact hmeets a b (.scalar ha hb)
  · cases hexact with
    | scalar _ _ h => exact h
    | structs | left => cases ha
    | right => cases hb

omit [ValuedDouble D] in
theorem fieldResult_eq_ok {handled : Handled D} (h : fieldResult handled = .ok r) : handled = some (.ok r) := by
  cases handled with
  | none => cases h
  | some result => exact congrArg some h

theorem exact_right_iff {gs : List (String × Value D)} (ha : isStruct a = false) :
    Exact op a (.struct gs) r ↔ ∃ rs, r = .struct rs ∧ rs.map (·.1) = gs.map (·.1) ∧ ∀ e ∈ gs.zip rs, Exact op a e.1.2 e.2.2 := by
  constructor
  · intro h
    cases h with
    | scalar _ hb => cases hb
    | structs => cases ha
    | left hb => cases hb
    | right _ hnames h => exact ⟨_, rfl, hnames, h⟩
  · rintro ⟨rs, rfl, hnames, h⟩
    exact .right ha hnames h

theorem exact_left_iff {fs : List (String × Value D)} (hb : isStruct b = false) :
    Exact op (.struct fs) b r ↔ ∃ rs, r = .struct rs ∧ rs.map (·.1) = fs.map (·.1) ∧ ∀ e ∈ fs.zip rs, Exact op e.1.2 b e.2.2 := by
  constructor
  · intro h
    cases h with
    | scalar ha => cases ha
    | structs => cases hb
    | left _ hnames h => exact ⟨_, rfl, hnames, h⟩
    | right ha => cases ha
  · rintro ⟨rs, rfl, hnames, h⟩
    exact .left hb hnames h

theorem exact_structs_iff {fs gs : List (String × Value D)} :
    Exact op (.struct fs) (.struct gs) r ↔ ∃ rs, r = .struct rs ∧ rs.map (·.1) = fs.map (·.1) ∧
      ∀ e ∈ fs.zip rs, ∀ w, structGetField gs e.1.1 = some w → Exact op e.1.2 w e.2.2 := by
  constructor
  · intro h
    cases h with
    | scalar ha => cases ha
    | structs hnames h => exact ⟨_, rfl, hnames, h⟩
    | left hb => cases hb
    | right ha => cases ha
  · rintro ⟨rs, rfl, hnames, h⟩
    exact .structs hnames h

mutual

theorem exact_scalarLeft (ha : isStruct a = false) : ∀ (b r : Value D), binaryOpScalarLeft op a b = some (.ok r) →
    (Exact op a b r ↔ ∀ x y, Pair a b x y → Meets op x y)
  | .struct gs, r, h => by
    unfold binaryOpScalarLeft at h
    split at h
    · cases h
    split at h
    · cases h
    cases hfields : scalarLeftFields op a gs with
    | error e => simp [hfields, Except.map] at h
    | ok rs =>
      obtain rfl : Value.struct rs = r := by simpa [hfields, Except.map] using h
      obtain ⟨hnames, hiff⟩ := exact_scalarLeftFields ha gs rs hfields
      rw [exact_right_iff ha]
      constructor
      · rintro ⟨rs', hrs, -, hexact⟩ x y hpair
        obtain rfl := Value.struct.inj hrs
        cases hpair with
        | scalar _ hb => cases hb
        | structs => cases ha
        | left hb => cases hb
        | right _ hg hpair => exact hiff.mp hexact _ hg x y hpair
      · intro hmeets
        exact ⟨rs, rfl, hnames, hiff.mpr fun g hg x y hpair => hmeets x y (.right ha hg hpair)⟩
  | .number v, r, h => exact_scalar_iff ha rfl h
  | .bool v, r, h => exact_scalar_iff ha rfl h
  | .string v, r, h => exact_scalar_iff ha rfl h
  | .null, r, h => exact_scalar_iff ha rfl h
  | .timestamp v, r, h => exact_scalar_iff ha rfl h
  | .duration v, r, h => exact_scalar_iff ha rfl h
  | .array v, r, h => exact_scalar_iff ha rfl h
  | .int64 v, r, h => exact_scalar_iff ha rfl h

theorem exact_scalarLeftFields (ha : isStruct a = false) : ∀ gs rs : List (String × Value D), scalarLeftFields op a gs = .ok rs →
    rs.map (·.1) = gs.map (·.1) ∧
      ((∀ e ∈ gs.zip rs, Exact op a e.1.2 e.2.2) ↔ ∀ g ∈ gs, ∀ x y, Pair a g.2 x y → Meets op x y)
  | [], rs, h => by
    cases h
    simp
  | (name, v) :: gs, rs, h => by
    obtain ⟨r, hr, h⟩ := bind_eq_ok.mp h
    obtain ⟨rs', hrs, h⟩ := bind_eq_ok.mp h
    cases h
    obtain ⟨hnames, hiff⟩ := exact_scalarLeftFields ha gs rs' hrs
    have hfirst := exact_scalarLeft ha v r (fieldResult_eq_ok hr)
    refine ⟨by simp [hnames], ?_⟩
    simp only [List.zip_cons_cons, List.forall_mem_cons, hfirst, hiff]

end

omit [ValuedDouble D] in
theorem structGetField_eq (fields : List (String × Value D)) (name : String) :
    structGetField fields name = (fields.find? (·.1 == name)).map (·.2) := rfl

mutual

theorem exact_impl : ∀ a b r : Value D, binaryOpImpl op a b = some (.ok r) → (Exact op a b r ↔ ∀ x y, Pair a b x y → Meets op x y)
  | .struct fs, b, r, h => by
    unfold binaryOpImpl at h
    split at h
    · cases h
    cases hb : isStruct b with
    | true =>
      cases b with
      | struct gs =>
        obtain ⟨rs, hfields, h⟩ := bind_eq_ok.mp (Option.some.inj h)
        split at h
        · cases h
        cases h
        obtain ⟨hnames, hiff⟩ := exact_structFields fs gs rs hfields
        rw [exact_structs_iff]
        constructor
        · rintro ⟨rs', hrs, -, hexact⟩ x y hpair
          obtain rfl := Value.struct.inj hrs
          cases hpair with
          | scalar ha => cases ha
          | structs hf hw hpair => exact hiff.mp hexact _ hf _ hw x y hpair
          | left hb => cases hb
          | right ha => cases ha
        · intro hmeets
          exact ⟨rs, rfl, hnames, hiff.mpr fun f hf w hw x y hpair => hmeets x y (.structs hf hw hpair)⟩
      | number | bool | string | null | timestamp | duration | array | int64 => cases hb
    | false =>
      cases hscalar : isStructScalarOperand b with
      | false => cases b <;> simp [hscalar, typeError, isStruct] at h hb
      | true =>
        cases hfields : scalarRightFields op fs b with
        | error e => cases b <;> simp [hscalar, hfields, Except.map, isStruct] at h hb
        | ok rs =>
          obtain rfl : Value.struct rs = r := by cases b <;> simp [hscalar, hfields, Except.map, isStruct] at h hb <;> exact h
          obtain ⟨hnames, hiff⟩ := exact_scalarRightFields b hb fs rs hfields
          rw [exact_left_iff hb]
          constructor
          · rintro ⟨rs', hrs, -, hexact⟩ x y hpair
            obtain rfl := Value.struct.inj hrs
            cases hpair with
            | scalar ha => cases ha
            | structs => cases hb
            | left _ hf hpair => exact hiff.mp hexact _ hf x y hpair
            | right ha => cases ha
          · intro hmeets
            exact ⟨rs, rfl, hnames, hiff.mpr fun f hf x y hpair => hmeets x y (.left hb hf hpair)⟩
  | .number v, b, r, h => exact_scalarLeft rfl b r h
  | .bool v, b, r, h => exact_scalarLeft rfl b r h
  | .string v, b, r, h => exact_scalarLeft rfl b r h
  | .null, b, r, h => exact_scalarLeft rfl b r h
  | .timestamp v, b, r, h => exact_scalarLeft rfl b r h
  | .duration v, b, r, h => exact_scalarLeft rfl b r h
  | .array v, b, r, h => exact_scalarLeft rfl b r h
  | .int64 v, b, r, h => exact_scalarLeft rfl b r h

theorem exact_structFields : ∀ fs gs rs : List (String × Value D), structFields op fs gs = .ok rs →
    rs.map (·.1) = fs.map (·.1) ∧
      ((∀ e ∈ fs.zip rs, ∀ w, structGetField gs e.1.1 = some w → Exact op e.1.2 w e.2.2) ↔
        ∀ f ∈ fs, ∀ w, structGetField gs f.1 = some w → ∀ x y, Pair f.2 w x y → Meets op x y)
  | [], gs, rs, h => by
    cases h
    simp
  | (name, v) :: fs, gs, rs, h => by
    unfold structFields at h
    cases hfind : gs.find? (·.1 == name) with
    | none => simp [hfind] at h
    | some g =>
      simp only [hfind] at h
      obtain ⟨r, hr, h⟩ := bind_eq_ok.mp h
      obtain ⟨rs', hrs, h⟩ := bind_eq_ok.mp h
      cases h
      obtain ⟨hnames, hiff⟩ := exact_structFields fs gs rs' hrs
      have hfirst := exact_impl v g.2 r (fieldResult_eq_ok hr)
      have hget : structGetField gs name = some g.2 := by rw [structGetField_eq, hfind, Option.map_some]
      refine ⟨by simp [hnames], ?_⟩
      simp only [List.zip_cons_cons, List.forall_mem_cons, hiff, hget, Option.some.injEq, forall_eq', hfirst]

theorem exact_scalarRightFields : ∀ b : Value D, isStruct b = false → ∀ fs rs : List (String × Value D),
    scalarRightFields op fs b = .ok rs → rs.map (·.1) = fs.map (·.1) ∧
      ((∀ e ∈ fs.zip rs, Exact op e.1.2 b e.2.2) ↔ ∀ f ∈ fs, ∀ x y, Pair f.2 b x y → Meets op x y)
  | b, hb, [], rs, h => by
    cases h
    simp
  | b, hb, (name, v) :: fs, rs, h => by
    obtain ⟨r, hr, h⟩ := bind_eq_ok.mp h
    obtain ⟨rs', hrs, h⟩ := bind_eq_ok.mp h
    cases h
    obtain ⟨hnames, hiff⟩ := exact_scalarRightFields b hb fs rs' hrs
    have hfirst := exact_impl v b r (fieldResult_eq_ok hr)
    refine ⟨by simp [hnames], ?_⟩
    simp only [List.zip_cons_cons, List.forall_mem_cons, hfirst, hiff]

end

omit [ValuedDouble D] in
theorem binaryOpImpl_eq_of_valueBinaryOp [Double D] (h : valueBinaryOp op a b = some (.ok r)) :
    binaryOpImpl op a b = some (.ok r) := by
  cases a with
  | struct fs =>
    cases b with
    | int64 y => cases h
    | number | bool | struct | string | null | timestamp | duration | array => exact h
  | int64 x =>
    cases b with
    | int64 y => exact h
    | number | bool | struct | string | null | timestamp | duration | array => cases h
  | number | bool | string | null | array =>
    cases b with
    | number | bool | string | null | array | int64 => cases h
    | struct | timestamp | duration => exact h
  | timestamp | duration =>
    cases b with
    | int64 => cases h
    | number | bool | string | null | array | struct | timestamp | duration => exact h

end

end ValueOps
end Cxpr
