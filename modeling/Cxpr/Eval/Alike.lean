import Cxpr.Eval.Tree

/-! The evaluator reads a registry by looking up names, and asks its index callbacks. Registries that answer alike evaluate
    alike, whatever the order of their entries. -/

namespace Cxpr
variable {D : Type}

structure Registry.Alike (reg reg' : Registry D) : Prop where
  find : ∀ name, reg'.find name = reg.find name
  hasIndexCapabilities : reg'.hasIndexCapabilities = reg.hasIndexCapabilities
  selectIndexCapability : reg'.selectIndexCapability = reg.selectIndexCapability
  lookbackResolver : reg'.lookbackResolver = reg.lookbackResolver

variable [Double D] {reg reg' : Registry D}

namespace Typecheck

theorem inferCall_alike (h : reg.Alike reg') (name : String) (args : List (Ast D)) (argNames : List (Option String))
    (types : List (Except Error StaticType)) : inferCall reg' name args argNames types = inferCall reg name args argNames types := by
  unfold inferCall
  rw [h.find]

theorem inferIndex_alike (h : reg.Alike reg') (target index : Ast D) (static : Static) (type : Except Error StaticType) :
    inferIndex reg' target index static type = inferIndex reg target index static type := by
  unfold inferIndex
  rw [h.selectIndexCapability]

mutual

theorem infer_alike (h : reg.Alike reg') : ∀ ast : Ast D, infer reg' ast = infer reg ast
  | .number _ | .int64 _ | .bool _ | .string _ | .identifier _ | .param _ | .fieldAccess _ _ | .chainAccess _
  | .producerAccess _ _ _ _ => by unfold infer; rfl
  | .array es => by rw [infer, infer, inferList_alike h es]
  | .record names values => by rw [infer, infer, inferList_alike h values]
  | .fieldOf base field => by rw [infer, infer, infer_alike h base]
  | .binary op l r => by rw [infer, infer, infer_alike h l, infer_alike h r]
  | .unary op a => by rw [infer, infer, infer_alike h a]
  | .call name args argNames => by rw [infer, infer, inferList_alike h args, inferCall_alike h]
  | .index target i => by rw [infer, infer, infer_alike h target, infer_alike h i, inferIndex_alike h]
  | .ternary c t e => by rw [infer, infer, infer_alike h c, infer_alike h t, infer_alike h e]

theorem inferList_alike (h : reg.Alike reg') : ∀ as : List (Ast D), inferList reg' as = inferList reg as
  | [] => rfl
  | a :: as => by rw [inferList, inferList, infer_alike h a, inferList_alike h as]

end

end Typecheck

theorem typecheck_alike (h : reg.Alike reg') (ast : Ast D) : typecheck ast reg' = typecheck ast reg := by
  unfold typecheck
  rw [Typecheck.infer_alike h]

namespace Eval

theorem evalFieldAccess_alike (h : reg.Alike reg') (object field : String) :
    evalFieldAccess reg' object field = evalFieldAccess reg object field := by
  unfold evalFieldAccess
  rw [h.find]

theorem evalIndex_alike (h : reg.Alike reg') (target index : Ast D) (targetAct indexAct : EvalM D (Value D)) :
    evalIndex reg' target index targetAct indexAct = evalIndex reg target index targetAct indexAct := by
  unfold evalIndex
  rw [h.lookbackResolver, h.selectIndexCapability]

theorem evalProducerAccess_alike (h : reg.Alike reg') (deeper : Ast D → EvalM D (Value D)) (name : String)
    (args : List (Ast D)) (argNames : List (Option String)) (field : String) (acts : List (EvalM D (Value D))) :
    evalProducerAccess reg' deeper name args argNames field acts = evalProducerAccess reg deeper name args argNames field acts := by
  unfold evalProducerAccess
  rw [h.find]

theorem evalCall_alike (h : reg.Alike reg') (deeper : Ast D → EvalM D (Value D)) (name : String) (args : List (Ast D))
    (argNames : List (Option String)) (acts : List (EvalM D (Value D))) :
    evalCall reg' deeper name args argNames acts = evalCall reg deeper name args argNames acts := by
  have htyped : registryCallTyped reg' name = registryCallTyped reg name := by
    funext values
    unfold registryCallTyped
    rw [h.find]
  unfold evalCall
  rw [h.find, htyped]

theorem memoized_alike (h : reg.Alike reg') (name : String) (ast : Ast D) (act : EvalM D (Value D)) :
    memoized reg' name ast act = memoized reg name ast act := by
  unfold memoized
  rw [h.find]

mutual

theorem evalNode_alike (h : reg.Alike reg') (deeper : Ast D → EvalM D (Value D)) :
    ∀ ast : Ast D, evalNode reg' deeper ast = evalNode reg deeper ast
  | .number _ | .int64 _ | .bool _ | .string _ | .identifier _ | .param _ | .chainAccess _ => by unfold evalNode; rfl
  | .fieldAccess object field => by rw [evalNode, evalNode, evalFieldAccess_alike h]
  | .array es => by rw [evalNode, evalNode, evalActs_alike h deeper es]
  | .record names values => by rw [evalNode, evalNode, evalActs_alike h deeper values]
  | .fieldOf base field => by
    have hbase := evalNode_alike h deeper base
    cases base with
    | call name args argNames =>
      have hacts := evalActs_alike h deeper args
      rw [evalNode, evalNode, h.find, hacts, evalProducerAccess_alike h, evalCall_alike h, memoized_alike h]
    | _ => exact congrArg (evalNode.fieldOfValue field) hbase
  | .index target i => by
    rw [evalNode, evalNode, evalNode_alike h deeper target, evalNode_alike h deeper i, evalIndex_alike h]
  | .binary op l r => by rw [evalNode, evalNode, evalNode_alike h deeper l, evalNode_alike h deeper r]
  | .unary op a => by rw [evalNode, evalNode, evalNode_alike h deeper a]
  | .call name args argNames => by
    rw [evalNode, evalNode, evalActs_alike h deeper args, evalCall_alike h, memoized_alike h]
  | .producerAccess name args argNames field => by
    rw [evalNode, evalNode, h.find, evalActs_alike h deeper args, evalProducerAccess_alike h]
  | .ternary c t e => by
    rw [evalNode, evalNode, evalNode_alike h deeper c, evalNode_alike h deeper t, evalNode_alike h deeper e]

theorem evalActs_alike (h : reg.Alike reg') (deeper : Ast D → EvalM D (Value D)) :
    ∀ as : List (Ast D), evalActs reg' deeper as = evalActs reg deeper as
  | [] => rfl
  | a :: as => by rw [evalActs, evalActs, evalNode_alike h deeper a, evalActs_alike h deeper as]

end

theorem evalDepth_alike (h : reg.Alike reg') (depth : Nat) : evalDepth reg' depth = evalDepth reg depth := by
  induction depth with
  | zero => rfl
  | succ depth ih =>
    funext ast
    show evalNode reg' (evalDepth reg' depth) ast = evalNode reg (evalDepth reg depth) ast
    rw [ih, evalNode_alike h]

theorem evalAst_alike (h : reg.Alike reg') (depth : Nat) (ast : Ast D) : evalAst reg' depth ast = evalAst reg depth ast := by
  unfold evalAst evalAstValue
  rw [typecheck_alike h, evalDepth_alike h]

end Eval
end Cxpr
