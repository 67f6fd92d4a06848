import Cxpr.Model.Session
import Cxpr.Typing.InferredKind

/-! The result kinds of bindings (`cxpr_model_infer_result_kind`), and when a binding has a value of its kind. -/

namespace Cxpr.Model
open Eval Stateful Typecheck
variable {D χ : Type} [Double D]

def ResultKind.type : ResultKind → Option ValueType
  | .number => some .number
  | .bool => some .bool
  | .int64 => some .int64
  | .unknown => none

def ofFastKind : Ir.ResultKind → ResultKind
  | .double => .number
  | .bool => .bool
  | .unknown => .unknown

def ofResultType : ValueType → ResultKind
  | .number => .number
  | .bool => .bool
  | _ => .unknown

/-- The operators that always give a bool to the inference; `==` and `!=` are not among them. -/
def givesBool : BinaryOp → Bool
  | .lt | .lte | .gt | .gte | .and | .or => true
  | _ => false

section
-- The outputs of the child program behind an entry, with their kinds.
variable (reg : Registry D) (children : FuncEntry D → Option (List (String × ResultKind)))

omit [Double D] in
def childOutputKind (name field : String) : Option ResultKind :=
  ((reg.find name).bind children).bind fun outputs => (outputs.find? (·.1 == field)).map (·.2)

/-- `cxpr_model_infer_result_kind_depth`, by the levels left until the depth limit. -/
def inferResultKindDepth : Nat → Ast D → ResultKind
  | 0, _ => .unknown
  | level + 1, ast =>
    match ast with
    | .int64 _ => .int64
    | .producerAccess name args argNames field =>
      (childOutputKind reg children name field).getD
        (ofFastKind (Ir.inferFastResultKind reg (level + 1) (.producerAccess name args argNames field)))
    | .index target _ =>
      match reg.selectIndexCapability target with
      | .ok (some capability) => ofResultType capability.resultType
      | _ => inferResultKindDepth level target
    | .binary op l r =>
      if givesBool op then .bool
      else if inferResultKindDepth level l = .int64 ∧ inferResultKindDepth level r = .int64 then .int64
      else ofFastKind (Ir.inferFastResultKind reg (level + 1) (.binary op l r))
    | ast => ofFastKind (Ir.inferFastResultKind reg (level + 1) ast)

def inferResultKind (ast : Ast D) : ResultKind := inferResultKindDepth reg children Ir.inferLevels ast

/-- The inferred kind holds at an evaluation: a child's output and what an index access finds are of their kind, an
    operator on two int64 kinds is none of `==` and `!=` and the kinds of its operands hold, and elsewhere the kind of the
    IR's inference holds. -/
def ResultKindHolds : Nat → Nat → Ast D → Context D → Prop
  | 0, _, _, _ => True
  | level + 1, depth, ast, ctx =>
    let found : Prop := ∀ v ctx₁, evalDepth reg depth ast ctx = .ok (v, ctx₁) →
      (inferResultKindDepth reg children (level + 1) ast).type = some v.type
    match ast with
    | .int64 _ => True
    | .producerAccess _ _ _ _ => found
    | .index _ _ => found
    | .binary op l r =>
      if givesBool op then True
      else if inferResultKindDepth reg children level l = .int64 ∧ inferResultKindDepth reg children level r = .int64 then
        isArithmetic op = true ∧ ∀ x ctx₁ y ctx₂,
          evalDepth reg depth l ctx = .ok (x, ctx₁) → evalDepth reg depth r ctx₁ = .ok (y, ctx₂) →
            ResultKindHolds level depth l ctx ∧ ResultKindHolds level depth r ctx₁
      else KindHolds reg (level + 1) depth (.binary op l r) ctx
    | ast => KindHolds reg (level + 1) depth ast ctx

/-- A value is of a kind, and a binding of that kind takes it: the session evaluates it without a type error. -/
structure OfKind (χ : Type) (kind : ResultKind) (ast : Ast D) (v : Value D) : Prop where
  type : kind.type = some v.type
  binds : ∀ (rt : Runtime D χ) (view : View D) (eff : Effects D χ), (rt.evalAst ast view eff).1 = .ok v →
    (rt.evalAstNumber ast view eff).1 = requireNumber v "Expression did not evaluate to double" →
      (rt.eval kind ast view eff).1 = .ok v

end

section
variable {reg : Registry D} {children : FuncEntry D → Option (List (String × ResultKind))}

omit [Double D] in
theorem type_ofFastKind (kind : Ir.ResultKind) : (ofFastKind kind).type = resultType kind := by
  cases kind <;> rfl

theorem evalBinary_givesBool {op : BinaryOp} (hop : givesBool op = true) : isArithmetic op = false := by
  cases op <;> first | rfl | cases hop

theorem type_eq_iff_resultKindHolds (level : Nat) : ∀ (depth : Nat) (ast : Ast D) (ctx ctx' : Context D) (v : Value D)
    (t : ValueType), (inferResultKindDepth reg children level ast).type = some t →
      evalDepth reg depth ast ctx = .ok (v, ctx') → (v.type = t ↔ ResultKindHolds reg children level depth ast ctx) := by
  induction level with
  | zero =>
    intro depth ast ctx ctx' v t ht
    cases ht
  | succ level ih =>
    intro depth ast ctx ctx' v t ht h
    have hfast : (ofFastKind (Ir.inferFastResultKind reg (level + 1) ast)).type = some t →
        (v.type = t ↔ KindHolds reg (level + 1) depth ast ctx) := fun hkind =>
      type_eq_iff_kindHolds (level + 1) depth ast ctx ctx' v t (by rw [← type_ofFastKind]; exact hkind) h
    cases ast with
    | producerAccess name args argNames field => exact type_eq_iff_of_run ht h
    | index target i => exact type_eq_iff_of_run ht h
    | int64 i =>
      cases ht
      cases depth with
      | zero => cases h
      | succ depth =>
        cases h
        simp [ResultKindHolds, Value.type]
    | binary op l r =>
      rw [ResultKindHolds]
      simp only [inferResultKindDepth] at ht
      split
      · rename_i hbool
        rw [if_pos hbool] at ht
        cases ht
        cases depth with
        | zero => cases h
        | succ depth =>
          rw [evalDepth, evalNode] at h
          simp [evalBinary_bool (evalBinary_givesBool hbool) h]
      · rename_i hbool
        rw [if_neg hbool] at ht
        split
        · rename_i hint
          rw [if_pos hint] at ht
          cases ht
          cases depth with
          | zero => cases h
          | succ depth =>
            rw [evalDepth, evalNode] at h
            cases hop : isArithmetic op with
            | false => simp [evalBinary_bool hop h]
            | true =>
              obtain ⟨x, ctx₁, y, hleft, hright, hvalue⟩ := evalBinary_arithmetic hop h
              have hleftHolds := ih (depth + 1) l ctx ctx₁ x .int64 (by rw [hint.1]; rfl) hleft
              have hrightHolds := ih (depth + 1) r ctx₁ ctx' y .int64 (by rw [hint.2]; rfl) hright
              rw [arithmeticOp_int64_iff hvalue, hleftHolds, hrightHolds]
              constructor
              · intro hholds
                refine ⟨rfl, fun x' ctx₂ y' ctx₃ hleft' hright' => ?_⟩
                have hl' := hleft.symm.trans hleft'
                cases hl'
                exact hholds
              · exact fun hall => hall.2 x ctx₁ y ctx' hleft hright
        · rename_i hint
          rw [if_neg hint] at ht
          exact hfast ht
    | number _ | bool _ | string _ | array _ | record _ _ | identifier _ | param _ | fieldAccess _ _ | fieldOf _ _
    | chainAccess _ | unary _ _ | call _ _ _ | ternary _ _ _ => exact hfast ht

omit [Double D] in
theorem ofKind_iff {kind : ResultKind} {ast : Ast D} {v : Value D} :
    OfKind χ kind ast v ↔ kind.type = some v.type := by
  refine ⟨fun h => h.type, fun htype => ⟨htype, fun rt view eff hvalue hnumber => ?_⟩⟩
  cases kind with
  | unknown => cases htype
  | int64 => exact hvalue
  | number =>
    cases v <;> cases htype
    simp only [Runtime.eval, hnumber]
    rfl
  | bool =>
    cases v <;> cases htype
    cases hrun : rt.evalAst ast view eff with
    | mk result eff' =>
      rw [hrun] at hvalue
      cases hvalue
      simp only [Runtime.eval, Runtime.evalAstBoolResult, hrun]
      rfl

/-- The sum `1 + x`. -/
def onePlus : Ast Int := .binary .plus (.number 1) (.identifier "x")

/-- A context in which `x` is the number 2. -/
def numberContext : Context Int := [({} : Frame Int).set "x" 2]

/-- `1i64 == 2i64` -/
def int64Equality : Ast Int := .binary .eq (.int64 1) (.int64 2)

end
end Cxpr.Model
