import Cxpr.Ast

/-! The canonical text of an expression in a source plan (`src/source/canonical.c`). Names and strings stand in it as they
    are, and the names of arguments do not stand in it. -/

namespace Cxpr.Source
variable {D : Type} [Double D]

/-- `cxpr_source_canonical_operator`. -/
def binaryOperator : BinaryOp → String
  | .plus => "__plus__"
  | .minus => "__minus__"
  | .star => "__star__"
  | .slash => "__div__"
  | .percent => "__mod__"
  | .power => "__pow__"
  | .eq => "__eq__"
  | .neq => "__neq__"
  | .lt => "__lt__"
  | .gt => "__gt__"
  | .lte => "__lte__"
  | .gte => "__gte__"
  | .and => "__and__"
  | .or => "__or__"

/-- `cxpr_source_canonical_operator`. -/
def unaryOperator : UnaryOp → String
  | .minus => "__minus__"
  | .not => "__not__"

mutual

def renderAstCanonical : Ast D → Option String
  | .number v => some (Double.formatG 17 v)
  | .int64 v => some (toString v ++ "i64")
  | .bool v => some (if v then "true" else "false")
  | .string v => some ("\"" ++ v ++ "\"")
  | .identifier name => some name
  | .param name => some ("$" ++ name)
  | .binary op l r => do
    let left ← renderAstCanonical l
    let right ← renderAstCanonical r
    some ("(" ++ left ++ binaryOperator op ++ right ++ ")")
  | .unary op a => do
    let operand ← renderAstCanonical a
    some (unaryOperator op ++ "(" ++ operand ++ ")")
  | .call name args _ => do
    let texts ← renderArgsCanonical args
    some (name ++ "(" ++ ",".intercalate texts ++ ")")
  | .producerAccess name args _ field => do
    let texts ← renderArgsCanonical args
    some (name ++ "(" ++ ",".intercalate texts ++ ")." ++ field)
  | .index target i => do
    let target ← renderAstCanonical target
    let index ← renderAstCanonical i
    some (target ++ "[" ++ index ++ "]")
  | .ternary c t e => do
    let condition ← renderAstCanonical c
    let trueBranch ← renderAstCanonical t
    let falseBranch ← renderAstCanonical e
    some ("(" ++ condition ++ "?" ++ trueBranch ++ ":" ++ falseBranch ++ ")")
  | .fieldOf base field => do
    let base ← renderAstCanonical base
    some ("(" ++ base ++ ")." ++ field)
  | .fieldAccess object field => some (object ++ "." ++ field)
  | .array _ | .record _ _ | .chainAccess _ => none

def renderArgsCanonical : List (Ast D) → Option (List String)
  | [] => some []
  | a :: as => do
    let text ← renderAstCanonical a
    let texts ← renderArgsCanonical as
    some (text :: texts)

end

inductive Shaped (D : Type) [Double D] : String → Prop
  | number (v : D) : Shaped D (Double.formatG 17 v)
  | int64 (v : Int64) : Shaped D (toString v ++ "i64")
  | bool (v : Bool) : Shaped D (if v then "true" else "false")
  | string (v : String) : Shaped D ("\"" ++ v ++ "\"")
  | param (name : String) : Shaped D ("$" ++ name)
  | call (name args : String) : Shaped D (name ++ "(" ++ args ++ ")")
  | index (target i : String) : Shaped D (target ++ "[" ++ i ++ "]")
  | field (object field : String) : Shaped D (object ++ "." ++ field)

theorem append_close (text : String) : text ++ ")" ++ "." = text ++ ")." := by
  rw [String.append_assoc]
  rfl

theorem shaped_of_render {ast : Ast D} {text : String} (h : renderAstCanonical ast = some text) :
    ast = .identifier text ∨ Shaped D text := by
  cases ast with
  | number v =>
    cases h
    exact .inr (.number v)
  | int64 v =>
    cases h
    exact .inr (.int64 v)
  | bool v =>
    cases h
    exact .inr (.bool v)
  | string v =>
    cases h
    exact .inr (.string v)
  | identifier name =>
    cases h
    exact .inl rfl
  | param name =>
    cases h
    exact .inr (.param name)
  | binary op l r =>
    simp only [renderAstCanonical, Option.bind_eq_bind, Option.bind_eq_some_iff, Option.some.injEq] at h
    obtain ⟨left, _, right, _, rfl⟩ := h
    have hcall := Shaped.call (D := D) "" (left ++ binaryOperator op ++ right)
    simp only [← String.append_assoc] at hcall
    exact .inr hcall
  | unary op a =>
    simp only [renderAstCanonical, Option.bind_eq_bind, Option.bind_eq_some_iff, Option.some.injEq] at h
    obtain ⟨operand, _, rfl⟩ := h
    exact .inr (.call (unaryOperator op) operand)
  | call name args argNames =>
    simp only [renderAstCanonical, Option.bind_eq_bind, Option.bind_eq_some_iff, Option.some.injEq] at h
    obtain ⟨texts, _, rfl⟩ := h
    exact .inr (.call name _)
  | producerAccess name args argNames field =>
    simp only [renderAstCanonical, Option.bind_eq_bind, Option.bind_eq_some_iff, Option.some.injEq] at h
    obtain ⟨texts, _, rfl⟩ := h
    have hfield := Shaped.field (D := D) (name ++ "(" ++ ",".intercalate texts ++ ")") field
    rw [append_close] at hfield
    exact .inr hfield
  | index target i =>
    simp only [renderAstCanonical, Option.bind_eq_bind, Option.bind_eq_some_iff, Option.some.injEq] at h
    obtain ⟨target, _, i, _, rfl⟩ := h
    exact .inr (.index target i)
  | ternary c t e =>
    simp only [renderAstCanonical, Option.bind_eq_bind, Option.bind_eq_some_iff, Option.some.injEq] at h
    obtain ⟨condition, _, trueBranch, _, falseBranch, _, rfl⟩ := h
    have hcall := Shaped.call (D := D) "" (condition ++ "?" ++ trueBranch ++ ":" ++ falseBranch)
    simp only [← String.append_assoc] at hcall
    exact .inr hcall
  | fieldOf base field =>
    simp only [renderAstCanonical, Option.bind_eq_bind, Option.bind_eq_some_iff, Option.some.injEq] at h
    obtain ⟨base, _, rfl⟩ := h
    have hfield := Shaped.field (D := D) ("(" ++ base ++ ")") field
    rw [append_close] at hfield
    exact .inr hfield
  | fieldAccess object field =>
    cases h
    exact .inr (.field object field)
  | array elements => cases h
  | record names values => cases h
  | chainAccess path => cases h

theorem render_of_shaped {text : String} (h : Shaped D text) :
    ∃ ast : Ast D, renderAstCanonical ast = some text ∧ ∀ name, ast ≠ .identifier name := by
  cases h with
  | number v => exact ⟨.number v, rfl, fun _ h => nomatch h⟩
  | int64 v => exact ⟨.int64 v, rfl, fun _ h => nomatch h⟩
  | bool v => exact ⟨.bool v, rfl, fun _ h => nomatch h⟩
  | string v => exact ⟨.string v, rfl, fun _ h => nomatch h⟩
  | param name => exact ⟨.param name, rfl, fun _ h => nomatch h⟩
  | call name args => exact ⟨.call name [.identifier args] [], rfl, fun _ h => nomatch h⟩
  | index target i => exact ⟨.index (.identifier target) (.identifier i), rfl, fun _ h => nomatch h⟩
  | field object field => exact ⟨.fieldAccess object field, rfl, fun _ h => nomatch h⟩

/-- The canonical text of an expression is the text of no other one exactly when the expression is an identifier, and its
    name has no shape of another node. -/
theorem canonical_alone_iff {ast : Ast D} {text : String} (h : renderAstCanonical ast = some text) :
    (∀ other : Ast D, renderAstCanonical other = some text → other = ast) ↔
      ∃ name, ast = .identifier name ∧ ¬ Shaped D name := by
  constructor
  · intro halone
    obtain rfl : .identifier text = ast := halone (.identifier text) rfl
    refine ⟨text, rfl, fun hshaped => ?_⟩
    obtain ⟨other, hother, hne⟩ := render_of_shaped hshaped
    exact hne text (halone other hother)
  · rintro ⟨name, rfl, hplain⟩ other hother
    cases h
    exact (shaped_of_render hother).resolve_right hplain

/-- The expression `f(1)`. -/
def positionalCall : Ast Int := .call "f" [.number 1] []

/-- The expression `f(x=1)`. -/
def namedCall : Ast Int := .call "f" [.number 1] [some "x"]

theorem positional_alone_iff :
    renderAstCanonical positionalCall = some "f(1)" ∧
      ((∀ other : Ast Int, renderAstCanonical other = some "f(1)" → other = positionalCall) ↔
        ∃ name, positionalCall = .identifier name ∧ ¬ Shaped Int name) :=
  ⟨rfl, canonical_alone_iff rfl⟩

theorem named_call_collides :
    renderAstCanonical positionalCall = some "f(1)" ∧ renderAstCanonical namedCall = some "f(1)" ∧ positionalCall ≠ namedCall :=
  ⟨rfl, rfl, fun h => by cases h⟩

end Cxpr.Source
