import Cxpr.Typing.Calls

/-! The types of the operators' results: what `cxpr_value_binary_op` gives for each pair of operand types, and from it
    what the operator nodes of the evaluator give. -/

namespace Cxpr.Typecheck
open Eval Stateful ValueOps
variable {D : Type} [Double D]

variable {v b a : Value D} {op : ValOp}

omit [Double D] in
theorem int64Checked_type {exact : Int} {overflow : String}
    (h : int64Checked exact overflow = some (.ok v)) : v.type = .int64 := by
  unfold int64Checked at h
  split at h <;> cases h
  rfl

omit [Double D] in
theorem int64BinaryOp_type {a b : Int64} (h : int64BinaryOp op a b = some (.ok v)) :
    v.type = if isOrdering op then .bool else .int64 := by
  cases op with
  | add | sub | mul => exact int64Checked_type h
  | div =>
    simp only [int64BinaryOp] at h
    split at h
    · cases h
    · exact int64Checked_type h
  | lt | lte | gt | gte =>
    cases h
    rfl

theorem binaryOpImpl_struct_left {fields : List (String × Value D)}
    (h : binaryOpImpl op (.struct fields) b = some (.ok v)) : isOrdering op = false ∧ v.type = .struct := by
  unfold binaryOpImpl at h
  split at h
  · cases h
  rename_i hop
  refine ⟨by simpa using hop, ?_⟩
  split at h
  · obtain ⟨values, -, h⟩ := bind_eq_ok.mp (Option.some.inj h)
    split at h <;> cases h
    rfl
  · split at h
    · cases h
    · cases hfields : scalarRightFields op fields b with
      | error e => simp [hfields, Except.map] at h
      | ok values =>
        simp only [hfields, Except.map, Option.some.injEq, Except.ok.injEq] at h
        exact h ▸ rfl

theorem binaryOpScalarLeft_struct {fields : List (String × Value D)}
    (h : binaryOpScalarLeft op a (.struct fields) = some (.ok v)) : isOrdering op = false ∧ v.type = .struct := by
  unfold binaryOpScalarLeft at h
  split at h
  · cases h
  rename_i hop
  refine ⟨by simpa using hop, ?_⟩
  split at h
  · cases h
  · cases hfields : scalarLeftFields op a fields with
    | error e => simp [hfields, Except.map] at h
    | ok values =>
      simp only [hfields, Except.map, Option.some.injEq, Except.ok.injEq] at h
      exact h ▸ rfl

theorem temporalBinaryOp_ordering (hop : isOrdering op = true)
    (h : temporalBinaryOp op a b = some (.ok v)) : v.type = .bool := by
  cases op with
  | add | sub | mul | div => cases hop
  | lt | lte | gt | gte =>
    simp only [temporalBinaryOp] at h
    split at h <;> cases h <;> rfl

omit [Double D] in
theorem type_eq_int64 : v.type = .int64 ↔ ∃ i, v = .int64 i := by
  cases v <;> simp [Value.type]

omit [Double D] in
theorem type_eq_struct : v.type = .struct ↔ ∃ fields, v = .struct fields := by
  cases v <;> simp [Value.type]

omit [Double D] in
theorem type_eq_number : v.type = .number ↔ ∃ d, v = .number d := by
  cases v <;> simp [Value.type]

theorem valueBinaryOp_int64 (h : valueBinaryOp op a b = some (.ok v))
    (hint : a.type = .int64 ∨ b.type = .int64) : v.type = if isOrdering op then .bool else .int64 := by
  rcases hint with hint | hint <;> obtain ⟨i, rfl⟩ := type_eq_int64.mp hint
  · cases b with
    | int64 j => exact int64BinaryOp_type h
    | _ => cases h
  · cases a with
    | int64 j => exact int64BinaryOp_type h
    | _ => cases h

theorem valueBinaryOp_struct (h : valueBinaryOp op a b = some (.ok v))
    (hstruct : a.type = .struct ∨ b.type = .struct) : isOrdering op = false ∧ v.type = .struct := by
  rcases hstruct with hstruct | hstruct <;> obtain ⟨fields, rfl⟩ := type_eq_struct.mp hstruct
  · cases b with
    | int64 j => cases h
    | _ => exact binaryOpImpl_struct_left (by simpa only [valueBinaryOp] using h)
  · cases a with
    | int64 j => cases h
    | struct left => exact binaryOpImpl_struct_left (by simpa only [valueBinaryOp] using h)
    | _ => exact binaryOpScalarLeft_struct (by simpa only [valueBinaryOp, binaryOpImpl] using h)

theorem valueBinaryOp_ordering (hop : isOrdering op = true)
    (h : valueBinaryOp op a b = some (.ok v)) : v.type = .bool := by
  by_cases hint : a.type = .int64 ∨ b.type = .int64
  · simpa [hop] using valueBinaryOp_int64 h hint
  · by_cases hstruct : a.type = .struct ∨ b.type = .struct
    · simp [(valueBinaryOp_struct h hstruct).1] at hop
    · unfold valueBinaryOp at h
      split at h
      · simp [Value.type] at hint
      · cases h
      · cases h
      · simp [Value.type] at hstruct
      · simp [Value.type] at hstruct
      · split at h
        · exact temporalBinaryOp_ordering hop h
        · cases h

omit [Double D] in
theorem handledOr_eq_ok {handled : Handled D} {message : String}
    (h : handledOr handled message = .ok v) : handled = some (.ok v) := by
  cases handled with
  | none => cases h
  | some r => exact congrArg some h

theorem arithmeticOp_type {op : BinaryOp} (h : arithmeticOp op a b = .ok v) :
    (a.type = .number → b.type = .number → v.type = .number) ∧
    (a.type = .int64 ∨ b.type = .int64 → v.type = .int64) ∧
    (a.type = .struct ∨ b.type = .struct → v.type = .struct) ∧
    (arithValOp op = none → v.type = .number) := by
  unfold arithmeticOp at h
  split at h
  · have hv : v.type = .number := by
      split at h <;> first
        | (cases h; rfl)
        | (split at h <;> cases h; rfl)
    refine ⟨fun _ _ => hv, ?_, ?_, fun _ => hv⟩
    · rintro (habs | habs) <;> cases habs
    · rintro (habs | habs) <;> cases habs
  · rename_i hnot
    obtain ⟨valOp, hop, hvalue⟩ := Option.bind_eq_some_iff.mp (handledOr_eq_ok h)
    have harith : isOrdering valOp = false := by
      unfold arithValOp at hop
      split at hop <;> cases hop <;> rfl
    refine ⟨fun ha hb => ?_, fun hint => ?_, fun hstruct => (valueBinaryOp_struct hvalue hstruct).2, fun habs => ?_⟩
    · obtain ⟨x, rfl⟩ := type_eq_number.mp ha
      obtain ⟨y, rfl⟩ := type_eq_number.mp hb
      exact (hnot x y rfl rfl).elim
    · simpa [harith] using valueBinaryOp_int64 hvalue hint
    · rw [habs] at hop
      cases hop

theorem comparisonOp_type {op : BinaryOp} (h : comparisonOp op a b = .ok v) : v.type = .bool := by
  unfold comparisonOp at h
  split at h
  · cases h
    rfl
  · refine valueBinaryOp_ordering ?_ (handledOr_eq_ok h)
    split <;> rfl

theorem equalityOp_type {op : BinaryOp} (h : equalityOp op a b = .ok v) : v.type = .bool := by
  unfold equalityOp at h
  split at h <;> cases h
  rfl

theorem binaryValues_type {op : BinaryOp} {lt rt : Certainty} (ha : ∀ t, lt = .sure t → a.type = t)
    (hb : ∀ t, rt = .sure t → b.type = t) (h : binaryValues op a b = .ok v) :
    ∀ t, certainBinary op lt rt = .sure t → v.type = t := by
  intro t ht
  have harith : arithmeticOp op a b = .ok v → certainArithmetic lt rt = .sure t → v.type = t := by
    intro h ht
    obtain ⟨hnumber, hint, hstruct, -⟩ := arithmeticOp_type h
    unfold certainArithmetic at ht
    split at ht <;> cases ht
    · exact hstruct (.inl (ha _ rfl))
    · exact hstruct (.inr (hb _ rfl))
    · exact hint (.inl (ha _ rfl))
    · exact hint (.inl (ha _ rfl))
    · exact hint (.inr (hb _ rfl))
    · exact hnumber (ha _ rfl) (hb _ rfl)
  unfold binaryValues at h
  cases op with
  | plus | minus | star | slash => exact harith h ht
  | percent | power =>
    cases ht
    exact (arithmeticOp_type h).2.2.2 rfl
  | lt | lte | gt | gte =>
    cases ht
    exact comparisonOp_type h
  | eq | neq =>
    cases ht
    exact equalityOp_type h
  | and | or => cases h

theorem yields_evalBinary {reg : Registry D} {op : BinaryOp} {lt rt : Certainty} {left right : EvalM D (Value D)}
    (hl : Yields (MemoFits reg) left fun v => ∀ t, lt = .sure t → v.type = t)
    (hr : Yields (MemoFits reg) right fun v => ∀ t, rt = .sure t → v.type = t) :
    Yields (MemoFits reg) (evalBinary op left right) fun v => ∀ t, certainBinary op lt rt = .sure t → v.type = t := by
  have hbool : ∀ {b : Bool} (t : ValueType), Certainty.sure .bool = .sure t → (Value.bool b : Value D).type = t := by
    rintro b t ht
    cases ht
    rfl
  refine hl.bind fun l hleft => ?_
  split
  · refine Yields.andThen (Yields.lift fun _ _ => trivial) fun b => ?_
    split
    · refine (keeps_of_yields hr).andThen fun r => Yields.andThen (Yields.lift fun _ _ => trivial) fun b => ?_
      exact Yields.pure hbool
    · exact Yields.pure hbool
  · refine Yields.andThen (Yields.lift fun _ _ => trivial) fun b => ?_
    split
    · exact Yields.pure hbool
    · refine (keeps_of_yields hr).andThen fun r => Yields.andThen (Yields.lift fun _ _ => trivial) fun b => ?_
      exact Yields.pure hbool
  · exact hr.bind fun r hright => Yields.lift fun v hv => binaryValues_type hleft hright hv

theorem unaryValue_type {op : UnaryOp} (h : unaryValue op a = .ok v) :
    (op = .minus → a.type = v.type) ∧ (op = .not → v.type = .bool) := by
  cases op with
  | minus =>
    refine ⟨fun _ => ?_, fun h => by cases h⟩
    cases a with
    | int64 i =>
      simp only [unaryValue] at h
      split at h <;> cases h
      rfl
    | number d =>
      cases h
      rfl
    | _ => cases h
  | not =>
    refine ⟨fun h => (by cases h), fun _ => ?_⟩
    obtain ⟨b, -, hret⟩ := bind_eq_ok.mp h
    cases hret
    rfl

end Cxpr.Typecheck
