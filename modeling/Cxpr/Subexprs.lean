import Cxpr.Ast

/-! The subexpressions of an expression. -/

namespace Cxpr.Ast
variable {D : Type}

mutual

def subexprs : Ast D → List (Ast D)
  | .array es => .array es :: subexprsAll es
  | .record names values => .record names values :: subexprsAll values
  | .fieldOf base field => .fieldOf base field :: subexprs base
  | .producerAccess name args argNames field => .producerAccess name args argNames field :: subexprsAll args
  | .binary op l r => .binary op l r :: (subexprs l ++ subexprs r)
  | .unary op a => .unary op a :: subexprs a
  | .call name args argNames => .call name args argNames :: subexprsAll args
  | .index target i => .index target i :: (subexprs target ++ subexprs i)
  | .ternary c t e => .ternary c t e :: (subexprs c ++ subexprs t ++ subexprs e)
  | .number v => [.number v]
  | .int64 v => [.int64 v]
  | .bool v => [.bool v]
  | .string v => [.string v]
  | .identifier name => [.identifier name]
  | .param name => [.param name]
  | .fieldAccess object field => [.fieldAccess object field]
  | .chainAccess path => [.chainAccess path]

def subexprsAll : List (Ast D) → List (Ast D)
  | [] => []
  | a :: as => subexprs a ++ subexprsAll as

end

theorem mem_subexprs_self (a : Ast D) : a ∈ subexprs a := by
  cases a <;> simp [subexprs]

variable {a : Ast D}

theorem mem_subexprsAll_iff {as : List (Ast D)} : a ∈ subexprsAll as ↔ ∃ x ∈ as, a ∈ subexprs x := by
  induction as with
  | nil => simp [subexprsAll]
  | cons x as ih => simp [subexprsAll, ih]

theorem mem_subexprsAll {as : List (Ast D)} (h : a ∈ as) : a ∈ subexprsAll as :=
  mem_subexprsAll_iff.mpr ⟨a, h, mem_subexprs_self a⟩

def parts : Ast D → List (Ast D)
  | .array es => es
  | .record _ values => values
  | .fieldOf base _ => [base]
  | .producerAccess _ args _ _ => args
  | .binary _ l r => [l, r]
  | .unary _ a => [a]
  | .call _ args _ => args
  | .index target i => [target, i]
  | .ternary c t e => [c, t, e]
  | .number _ | .int64 _ | .bool _ | .string _ | .identifier _ | .param _ | .fieldAccess _ _ | .chainAccess _ => []

theorem subexprsAll_eq (as : List (Ast D)) : subexprsAll as = as.flatMap subexprs := by
  induction as with
  | nil => rfl
  | cons a as ih => rw [subexprsAll, ih, List.flatMap_cons]

theorem subexprs_eq (a : Ast D) : subexprs a = a :: a.parts.flatMap subexprs := by
  cases a <;> simp [subexprs, parts, subexprsAll_eq]

theorem mem_subexprs {x : Ast D} : x ∈ subexprs a ↔ x = a ∨ ∃ p ∈ a.parts, x ∈ subexprs p := by
  rw [subexprs_eq, List.mem_cons, List.mem_flatMap]

mutual

theorem parts_induction {motive : Ast D → Prop} (step : ∀ a : Ast D, (∀ p ∈ a.parts, motive p) → motive a) : ∀ a, motive a
  | .array es => step _ (parts_induction_all step es)
  | .record _ values => step _ (parts_induction_all step values)
  | .call _ args _ => step _ (parts_induction_all step args)
  | .producerAccess _ args _ _ => step _ (parts_induction_all step args)
  | .fieldOf base _ => step _ (by simpa [parts] using parts_induction step base)
  | .unary _ a => step _ (by simpa [parts] using parts_induction step a)
  | .binary _ l r => step _ (by simpa [parts] using ⟨parts_induction step l, parts_induction step r⟩)
  | .index target i => step _ (by simpa [parts] using ⟨parts_induction step target, parts_induction step i⟩)
  | .ternary c t e =>
    step _ (by simpa [parts] using ⟨parts_induction step c, parts_induction step t, parts_induction step e⟩)
  | .number _ | .int64 _ | .bool _ | .string _ | .identifier _ | .param _ | .fieldAccess _ _ | .chainAccess _ =>
    step _ (by simp [parts])

theorem parts_induction_all {motive : Ast D → Prop} (step : ∀ a : Ast D, (∀ p ∈ a.parts, motive p) → motive a) :
    ∀ as : List (Ast D), ∀ a ∈ as, motive a
  | [] => by simp
  | a :: as => by simpa using ⟨parts_induction step a, parts_induction_all step as⟩

end

end Cxpr.Ast
