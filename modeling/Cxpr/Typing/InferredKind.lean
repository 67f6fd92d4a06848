import Cxpr.Ir.Validate
import Cxpr.Lib.Computes
import Cxpr.Typing.Operators

/-! When the kind that `cxpr_ir_infer_fast_result_kind` infers is the type of the value. It takes every name for a
    number and every function for what it declares; an expression has the inferred kind exactly when this is so
    wherever it decides the type of the value. -/

namespace Cxpr.Typecheck
open Eval Stateful
variable {D : Type} [Double D]

/-! ### What decides the type -/

def resultType : Ir.ResultKind → Option ValueType
  | .double => some .number
  | .bool => some .bool
  | .unknown => none

def isArithmetic : BinaryOp → Bool
  | .plus | .minus | .star | .slash | .percent | .power => true
  | _ => false

def keptValue (reg : Registry D) (name : String) (ast : Ast D) (ctx : Context D) : Option (Value D) :=
  if (reg.find name).any memoable then
    match memoGet ast ctx with
    | .ok (found, _) => found
    | .error _ => none
  else none

omit [Double D] in
def plainBody (reg : Registry D) (name : String) : Option (FuncEntry D × Ast D) :=
  match reg.find name with
  | none => none
  | some entry =>
    if (entry.astFuncHandler <|> entry.astFunc).isNone && entry.structProducer.isNone && entry.modelProducer.isNone &&
        entry.valueFunc.isNone && entry.definedReturnFields.isEmpty && Ir.definedIsScalarOnly entry then
      entry.definedBody.map fun body => (entry, body)
    else none

def lacksScalar (ctx : Context D) : Ast D → Bool
  | .identifier name => (ctx.get name).isNone
  | _ => false

def bodyRun (entry : FuncEntry D) (body : Ast D) (ordered : List (Ast D × EvalM D (Value D))) :
    EvalM D (Ast D × Option (Frame D)) := do
  let orderedArgs := ordered.map (·.1)
  if ordered.length ≠ entry.definedParamNames.length then evalError .wrongArity "Wrong number of arguments"
  else if canInlineValueArgs entry orderedArgs then return (substituteDefinedArgs entry orderedArgs body, none)
  else
    let ctx ← get
    if orderedArgs.any (lacksScalar ctx) then
      return (body, some (← bindOverlayArgs (entry.definedParamNames.zip ordered) {}))
    else return (body, some (bindArgs entry.definedParamNames (← evalAll (ordered.map (·.2)))))

/-- The inferred kind holds at an evaluation, by the levels that are left to the inference and the calls that are left to
    the evaluation: a variable or parameter is a number, so are the operands of an arithmetic operator or of minus, the
    kind holds for the branch that is taken and for the body of a defined function, and any other function gives a value
    of the kind that is inferred for its call. -/
def KindHolds (reg : Registry D) : Nat → Nat → Ast D → Context D → Prop
  | 0, _, _, _ => True
  | level + 1, depth, ast, ctx =>
    match ast with
    | .identifier name => ∀ v, ctx.getTyped name = some v → v.type = .number
    | .param name => ∀ v, ctx.getParamTyped name = some v → v.type = .number
    | .unary op a => op = .minus → KindHolds reg level depth a ctx
    | .binary op l r =>
      isArithmetic op = true → ∀ x ctx₁ y ctx₂,
        evalDepth reg depth l ctx = .ok (x, ctx₁) → evalDepth reg depth r ctx₁ = .ok (y, ctx₂) →
          -- the quotient of two durations is a number too
          (KindHolds reg level depth l ctx ∧ KindHolds reg level depth r ctx₁) ∨
            (op = .slash ∧ x.type = .duration ∧ y.type = .duration)
    | .ternary c t e =>
      ∀ b ctx₁, evalDepth reg depth c ctx = .ok (.bool b, ctx₁) → KindHolds reg level depth (if b then t else e) ctx₁
    | .call name args argNames =>
      let given (v : Value D) : Prop :=
        resultType (Ir.inferFastResultKind reg (level + 1) (.call name args argNames)) = some v.type
      let evaluated : Prop := ∀ v ctx₁,
        evalCall reg (evalDepth reg (depth - 1)) name args argNames (evalActs reg (evalDepth reg (depth - 1)) args) ctx =
          .ok (v, ctx₁) → given v
      match keptValue reg name (.call name args argNames) ctx with
      | some v => given v
      | none =>
        match name == "if", args with
        | true, [c, t, e] =>
          if plainIf reg && !Ast.callUsesNamedArgs 3 argNames then
            ∀ b ctx₁, evalDepth reg depth c ctx = .ok (.bool b, ctx₁) →
              KindHolds reg level depth (if b then t else e) ctx₁
          else evaluated
        | _, _ =>
          match plainBody reg name with
          | none => evaluated
          | some (entry, body) =>
            ∀ ordered run ctx₁,
              callBindArgs entry (args.zip (evalActs reg (evalDepth reg (depth - 1)) args)) argNames = .ok ordered →
              bodyRun entry body ordered ctx = .ok (run, ctx₁) →
                KindHolds reg level (depth - 1) run.1 (run.2.toList ++ ctx₁)
    | _ => True

section
variable {valOp : ValOp} {op : BinaryOp} {a b v : Value D}

theorem temporalBinaryOp_arithmetic (hop : ValueOps.isOrdering valOp = false)
    (h : ValueOps.temporalBinaryOp valOp a b = some (.ok v)) :
    v.type ≠ .int64 ∧ (v.type = .number ↔ valOp = .div ∧ a.type = .duration ∧ b.type = .duration) := by
  cases valOp with
  | lt | lte | gt | gte => cases hop
  | add | sub | mul =>
    simp only [ValueOps.temporalBinaryOp] at h
    split at h <;> cases h <;> simp [Value.type]
  | div =>
    simp only [ValueOps.temporalBinaryOp] at h
    split at h
    · split at h <;> cases h
      simp [Value.type]
    · split at h <;> cases h
      simp [Value.type]
    · cases h

theorem valueBinaryOp_arithmetic (hop : ValueOps.isOrdering valOp = false) (h : valueBinaryOp valOp a b = some (.ok v)) :
    (v.type = .int64 ↔ a.type = .int64 ∧ b.type = .int64) ∧
      (v.type = .number ↔ valOp = .div ∧ a.type = .duration ∧ b.type = .duration) := by
  by_cases hint : a.type = .int64 ∨ b.type = .int64
  · have hv := valueBinaryOp_int64 h hint
    rw [hop, if_neg (by simp)] at hv
    have hboth : a.type = .int64 ∧ b.type = .int64 := by
      rcases hint with hint | hint <;> obtain ⟨i, rfl⟩ := type_eq_int64.mp hint
      · cases b with
        | int64 j => exact ⟨rfl, rfl⟩
        | _ => cases h
      · cases a with
        | int64 j => exact ⟨rfl, rfl⟩
        | _ => cases h
    simp [hv, hboth]
  by_cases hstruct : a.type = .struct ∨ b.type = .struct
  · have hv := (valueBinaryOp_struct h hstruct).2
    rcases hstruct with hstruct | hstruct <;> simp [hv, hstruct]
  · have htemporal : ValueOps.temporalBinaryOp valOp a b = some (.ok v) := by
      unfold valueBinaryOp at h
      split at h
      · exact (hint (.inl rfl)).elim
      · exact (hint (.inl rfl)).elim
      · exact (hint (.inr rfl)).elim
      · exact (hstruct (.inl rfl)).elim
      · exact (hstruct (.inr rfl)).elim
      · split at h
        · exact h
        · cases h
    obtain ⟨hnot, hnumber⟩ := temporalBinaryOp_arithmetic hop htemporal
    refine ⟨⟨fun hv => (hnot hv).elim, fun hboth => (hint (.inl hboth.1)).elim⟩, hnumber⟩

theorem arithmeticOp_cases (h : arithmeticOp op a b = .ok v) :
    (a.type = .number ∧ b.type = .number ∧ v.type = .number) ∨
      ∃ valOp, arithValOp op = some valOp ∧ ValueOps.isOrdering valOp = false ∧ valueBinaryOp valOp a b = some (.ok v) := by
  have htype := arithmeticOp_type h
  unfold arithmeticOp at h
  split at h
  · exact .inl ⟨rfl, rfl, htype.1 rfl rfl⟩
  · obtain ⟨valOp, hop, hvalue⟩ := Option.bind_eq_some_iff.mp (handledOr_eq_ok h)
    refine .inr ⟨valOp, hop, ?_, hvalue⟩
    unfold arithValOp at hop
    split at hop <;> cases hop <;> rfl

theorem arithmeticOp_number_iff (h : arithmeticOp op a b = .ok v) :
    v.type = .number ↔ (a.type = .number ∧ b.type = .number) ∨ (op = .slash ∧ a.type = .duration ∧ b.type = .duration) := by
  rcases arithmeticOp_cases h with ⟨ha, hb, hv⟩ | ⟨valOp, hop, hordering, hvalue⟩
  · simp [ha, hb, hv]
  have hslash : valOp = .div ↔ op = .slash := by
    cases op <;> cases hop <;> simp
  have hnot : ¬ (a.type = .number ∧ b.type = .number) := by
    rintro ⟨ha, hb⟩
    obtain ⟨x, rfl⟩ := type_eq_number.mp ha
    obtain ⟨y, rfl⟩ := type_eq_number.mp hb
    cases hvalue
  rw [(valueBinaryOp_arithmetic hordering hvalue).2, hslash]
  simp [hnot]

theorem arithmeticOp_int64_iff (h : arithmeticOp op a b = .ok v) :
    v.type = .int64 ↔ a.type = .int64 ∧ b.type = .int64 := by
  rcases arithmeticOp_cases h with ⟨ha, hb, hv⟩ | ⟨valOp, hop, hordering, hvalue⟩
  · simp [ha, hb, hv]
  · exact (valueBinaryOp_arithmetic hordering hvalue).1

end

section
variable {reg : Registry D} {left right c t e : EvalM D (Value D)} {ctx ctx' : Context D} {v : Value D}

theorem evalBinary_arithmetic {op : BinaryOp} (hop : isArithmetic op = true) (h : evalBinary op left right ctx = .ok (v, ctx')) :
    ∃ x ctx₁ y, left ctx = .ok (x, ctx₁) ∧ right ctx₁ = .ok (y, ctx') ∧ arithmeticOp op x y = .ok v := by
  obtain ⟨x, ctx₁, hleft, hrest⟩ := bind_apply_eq_ok.mp h
  have hboth : (right >>= fun y => (liftM (binaryValues op x y) : EvalM D (Value D))) ctx₁ = .ok (v, ctx') := by
    cases op <;> first | exact hrest | cases hop
  obtain ⟨y, ctx₂, hright, hvalue⟩ := bind_apply_eq_ok.mp hboth
  obtain ⟨hvalues, rfl⟩ := lift_apply_eq_ok.mp hvalue
  refine ⟨x, ctx₁, y, hleft, hright, ?_⟩
  cases op <;> first | exact hvalues | cases hop

omit [Double D] in
theorem logicalRight_bool {message : String}
    (h : (right >>= fun y => (liftM (requireBool y message) : EvalM D Bool) >>= fun b => pure (.bool b)) ctx = .ok (v, ctx')) :
    v.type = .bool := by
  obtain ⟨y, ctx₁, -, hrest⟩ := bind_apply_eq_ok.mp h
  obtain ⟨b, ctx₂, -, hret⟩ := bind_apply_eq_ok.mp hrest
  cases hret
  rfl

theorem evalBinary_bool {op : BinaryOp} (hop : isArithmetic op = false) (h : evalBinary op left right ctx = .ok (v, ctx')) :
    v.type = .bool := by
  obtain ⟨x, ctx₁, hleft, hrest⟩ := bind_apply_eq_ok.mp h
  cases op with
  | plus | minus | star | slash | percent | power => cases hop
  | and =>
    obtain ⟨b, ctx₂, -, hbranch⟩ := bind_apply_eq_ok.mp hrest
    cases b with
    | true => exact logicalRight_bool hbranch
    | false =>
      cases hbranch
      rfl
  | or =>
    obtain ⟨b, ctx₂, -, hbranch⟩ := bind_apply_eq_ok.mp hrest
    cases b with
    | true =>
      cases hbranch
      rfl
    | false => exact logicalRight_bool hbranch
  | lt | lte | gt | gte =>
    obtain ⟨y, ctx₂, hright, hvalue⟩ := bind_apply_eq_ok.mp hrest
    have hvalues := (lift_apply_eq_ok.mp hvalue).1
    simp only [binaryValues] at hvalues
    exact comparisonOp_type hvalues
  | eq | neq =>
    obtain ⟨y, ctx₂, hright, hvalue⟩ := bind_apply_eq_ok.mp hrest
    have hvalues := (lift_apply_eq_ok.mp hvalue).1
    simp only [binaryValues] at hvalues
    exact equalityOp_type hvalues

omit [Double D] in
theorem evalTernary_run {message : String} (h : evalTernary message c t e ctx = .ok (v, ctx')) :
    ∃ b ctx₁, c ctx = .ok (.bool b, ctx₁) ∧ (if b then t else e) ctx₁ = .ok (v, ctx') := by
  obtain ⟨x, ctx₁, hc, hrest⟩ := bind_apply_eq_ok.mp h
  obtain ⟨b, ctx₂, hb, hbranch⟩ := bind_apply_eq_ok.mp hrest
  obtain ⟨hbool, rfl⟩ := lift_apply_eq_ok.mp hb
  rw [requireBool_eq_ok hbool] at hc
  refine ⟨b, ctx₂, hc, ?_⟩
  cases b <;> exact hbranch

theorem memoGet_run (ast : Ast D) (ctx : Context D) : ∃ found, memoGet ast ctx = .ok (found, ctx) := by
  unfold memoGet
  split
  · exact ⟨none, rfl⟩
  · split
    · exact ⟨none, rfl⟩
    · exact ⟨_, rfl⟩

variable {name : String} {deeper : Ast D → EvalM D (Value D)} {entry : FuncEntry D} {body : Ast D}

theorem memoized_run {ast : Ast D} {act : EvalM D (Value D)}
    (h : memoized reg name ast act ctx = .ok (v, ctx')) :
    keptValue reg name ast ctx = some v ∨ (keptValue reg name ast ctx = none ∧ ∃ ctx₁, act ctx = .ok (v, ctx₁)) := by
  unfold memoized at h
  unfold keptValue
  split at h
  · rename_i hmemoable
    obtain ⟨found, hfound⟩ := memoGet_run ast ctx
    rw [bind_apply_ok hfound] at h
    rw [if_pos hmemoable, hfound]
    cases found with
    | some kept =>
      cases h
      exact .inl rfl
    | none =>
      obtain ⟨w, ctx₁, hact, hrest⟩ := bind_apply_eq_ok.mp h
      obtain ⟨_, ctx₂, -, hret⟩ := bind_apply_eq_ok.mp hrest
      cases hret
      exact .inr ⟨rfl, ctx₁, hact⟩
  · rename_i hmemoable
    rw [if_neg hmemoable]
    exact .inr ⟨rfl, ctx', h⟩

theorem evalCall_plainIf {args : List (Ast D)} {argNames : List (Option String)}
    (hif : plainIf reg = true) (hlen : args.length = 3) (hnamed : Ast.callUsesNamedArgs 3 argNames = false)
    (h : evalCall reg deeper "if" args argNames [c, t, e] ctx = .ok (v, ctx')) :
    evalTernary "if() condition must be bool" c t e ctx = .ok (v, ctx') := by
  unfold evalCall at h
  rw [bind_apply_ok (show (get : EvalM D (Context D)) ctx = .ok (ctx, ctx) from rfl)] at h
  cases hfind : reg.find "if" with
  | none =>
    rw [hfind] at h
    cases h
  | some entry =>
    simp only [plainIf, hfind, Bool.and_eq_true, Option.isNone_iff_eq_none, List.isEmpty_iff] at hif
    obtain ⟨⟨⟨⟨⟨hast, hproducer⟩, hmodel⟩, hbody⟩, hrecord⟩, hstructs⟩ := hif
    obtain ⟨a, a', a'', rfl⟩ := List.length_eq_three.mp hlen
    have hbind : callBindArgs entry ([a, a', a''].zip [c, t, e]) argNames = .ok [(a, c), (a', t), (a'', e)] := by
      simp [callBindArgs, hnamed, maxCallArgs]
    simp only [hfind, hast, hmodel, hbody, hrecord] at h
    split at h
    · rename_i hnot
      simp_all
    rw [hbind, lift_ok_bind] at h
    simp only [Option.isSome_none, List.isEmpty_nil, Bool.not_true, Bool.or_false, Bool.false_eq_true, if_false,
      beq_self_eq_true] at h
    rw [Bool.not_eq_true'] at hproducer
    rw [hproducer, if_neg Bool.false_ne_true] at h
    cases hfields : entry.structFields with
    | none =>
      simp only [hfields] at h
      exact h
    | some fields =>
      cases hstruct : entry.structProducer with
      | some producer =>
        simp only [hfields, hstruct] at h
        exact h
      | none =>
        cases hsync : entry.syncFunc with
        | none =>
          simp only [hfields, hstruct, hsync] at h
          exact h
        | some f => simp [hfields, hstruct, hsync] at hstructs

omit [Double D] in
theorem plainBody_eq_some
    (h : plainBody reg name = some (entry, body)) :
    reg.find name = some entry ∧ (entry.astFuncHandler <|> entry.astFunc) = none ∧ entry.structProducer = none ∧
      entry.modelProducer = none ∧ entry.valueFunc = none ∧ entry.definedReturnFields = [] ∧
      Ir.definedIsScalarOnly entry = true ∧ entry.definedBody = some body := by
  unfold plainBody at h
  split at h
  · cases h
  · rename_i found hfind
    split at h
    · rename_i hplain
      obtain ⟨b, hbody, heq⟩ := Option.map_eq_some_iff.mp h
      cases heq
      simp only [Bool.and_eq_true, Option.isNone_iff_eq_none, List.isEmpty_iff] at hplain
      obtain ⟨⟨⟨⟨⟨hast, hproducer⟩, hmodel⟩, hvalue⟩, hrecord⟩, hscalar⟩ := hplain
      exact ⟨hfind, hast, hproducer, hmodel, hvalue, hrecord, hscalar, hbody⟩
    · cases h

theorem evalCall_plainBody {args : List (Ast D)}
    {argNames : List (Option String)} {acts : List (EvalM D (Value D))}
    (hplain : plainBody reg name = some (entry, body))
    (h : evalCall reg deeper name args argNames acts ctx = .ok (v, ctx')) :
    ∃ ordered, callBindArgs entry (args.zip acts) argNames = .ok ordered ∧
      evalDefinedFunction deeper entry ordered ctx = .ok (v, ctx') := by
  obtain ⟨hfind, hast, hproducer, hmodel, -, -, -, hbody⟩ := plainBody_eq_some hplain
  unfold evalCall at h
  rw [bind_apply_ok (show (get : EvalM D (Context D)) ctx = .ok (ctx, ctx) from rfl)] at h
  simp only [hfind, hast, hproducer, hmodel, hbody, Option.isSome_none, Option.isSome_some, Bool.false_and,
    Bool.false_eq_true, if_false, Bool.true_or, if_true] at h
  obtain ⟨ordered, ctx₁, hbind, hrest⟩ := bind_apply_eq_ok.mp h
  obtain ⟨hordered, rfl⟩ := lift_apply_eq_ok.mp hbind
  exact ⟨ordered, hordered, hrest⟩

omit [Double D] in
theorem wrapDefinedError_run {α : Type} {act : EvalM D α} {r : α × Context D}
    (h : wrapDefinedError name act ctx = .ok r) : act ctx = .ok r := by
  unfold wrapDefinedError at h
  split at h
  · rename_i hact
    rw [hact, h]
  · cases h

omit [Double D] in
theorem inOverlay_run {α : Type} {tmp : Frame D} {act : EvalM D α} {a : α} (h : inOverlay tmp act ctx = .ok (a, ctx')) :
    ∃ ctx₁, act (tmp :: ctx) = .ok (a, ctx₁) := by
  obtain ⟨⟨b, ctx₁⟩, hact, hret⟩ := bind_eq_ok.mp h
  cases hret
  exact ⟨ctx₁, hact⟩

theorem evalDefinedFunction_run
    {ordered : List (Ast D × EvalM D (Value D))} (hbody : entry.definedBody = some body)
    (hrecord : entry.definedReturnFields = []) (hscalar : Ir.definedIsScalarOnly entry = true)
    (hlen : ordered.length ≤ maxCallArgs) (hfield : ∀ object field, body ≠ .fieldAccess object field)
    (hchain : ∀ path, body ≠ .chainAccess path) (h : evalDefinedFunction deeper entry ordered ctx = .ok (v, ctx')) :
    ∃ run ctx₁ ctx₂, bodyRun entry body ordered ctx = .ok (run, ctx₁) ∧
      deeper run.1 (run.2.toList ++ ctx₁) = .ok (v, ctx₂) := by
  unfold evalDefinedFunction at h
  unfold bodyRun
  by_cases hcount : ordered.length ≠ entry.definedParamNames.length
  · rw [if_pos hcount] at h
    cases h
  rw [if_neg hcount] at h ⊢
  simp only [hbody, hrecord] at h
  by_cases hinline : canInlineValueArgs entry (ordered.map (·.1)) = true
  · rw [if_pos hinline] at h ⊢
    exact ⟨_, ctx, ctx', rfl, wrapDefinedError_run h⟩
  have hall : (decide (ordered.length ≤ maxCallArgs) && entry.definedParamFields.all List.isEmpty) = true := by
    rw [decide_eq_true hlen]
    exact hscalar
  have hdirect : overlayDirectField entry (ordered.map (·.1)) ctx = none := by
    unfold overlayDirectField
    rw [hbody]
    split
    · rename_i object field heq
      exact (hfield object field (Option.some.inj heq)).elim
    · rename_i root field heq
      exact (hchain _ (Option.some.inj heq)).elim
    · rfl
  rw [if_neg hinline] at h ⊢
  simp only [List.isEmpty_nil, Bool.not_true, Bool.false_eq_true, if_false, hall, if_true] at h
  rw [bind_apply_ok (show (get : EvalM D (Context D)) ctx = .ok (ctx, ctx) from rfl)] at h ⊢
  split at h
  · rename_i hany
    have hlacks : (ordered.map (·.1)).any (lacksScalar ctx) = true := by
      refine Eq.trans (congrArg _ (funext fun a => ?_)) hany
      cases a <;> rfl
    rw [if_pos hlacks]
    rw [hdirect] at h
    obtain ⟨tmp, ctx₁, hbind, hrest⟩ := bind_apply_eq_ok.mp h
    obtain ⟨ctx₂, hrun⟩ := inOverlay_run hrest
    exact ⟨(body, some tmp), ctx₁, ctx₂, by rw [bind_apply_ok hbind]; rfl, wrapDefinedError_run hrun⟩
  · rename_i hany
    have hlacks : ¬ (ordered.map (·.1)).any (lacksScalar ctx) = true := by
      refine fun hlacks => hany (Eq.trans (congrArg _ (funext fun a => ?_)) hlacks)
      cases a <;> rfl
    rw [if_neg hlacks]
    obtain ⟨values, ctx₁, hall, hrest⟩ := bind_apply_eq_ok.mp h
    obtain ⟨ctx₂, hrun⟩ := inOverlay_run hrest
    exact ⟨(body, some (bindArgs entry.definedParamNames values)), ctx₁, ctx₂, by rw [bind_apply_ok hall]; rfl,
      wrapDefinedError_run hrun⟩

end

section
variable {reg : Registry D} {entry : FuncEntry D} {orderedArgs : List (Ast D)}

def isNumberLeaf : Ast D → Bool
  | .identifier _ | .param _ | .number _ => true
  | _ => false

variable {a : Ast D} {level : Nat} {name : String}

omit [Double D] in
theorem kind_numberLeaf (h : isNumberLeaf a = true) (level : Nat) :
    Ir.inferFastResultKind reg (level + 1) a = .double := by
  cases a <;> first | rfl | cases h

omit [Double D] in
theorem isNumberLeaf_of_stable (hstable : inlineArgIsStable a = true)
    (hkind : Ir.inferFastResultKind reg level a = .double) : isNumberLeaf a = true := by
  cases level with
  | zero => cases hkind
  | succ level =>
    cases a with
    | identifier _ | param _ | number _ => rfl
    | bool _ | string _ => cases hkind
    | _ => cases hstable

omit [Double D] in
theorem definedArgForName_mem (h : definedArgForName entry orderedArgs name = some a) :
    a ∈ orderedArgs := by
  obtain ⟨i, -, hi⟩ := Option.bind_eq_some_iff.mp h
  exact List.mem_of_getElem? hi

omit [Double D] in
theorem substituteAll_eq_map (as : List (Ast D)) :
    substituteAll entry orderedArgs as = as.map (substituteDefinedArgs entry orderedArgs) := by
  induction as with
  | nil => rfl
  | cons a as ih => rw [substituteAll, ih, List.map_cons]

omit [Double D] in
theorem kind_call_congr {argNames : List (Option String)} {args args' : List (Ast D)}
    (h : List.Forall₂ (fun a b => Ir.inferFastResultKind reg level a = Ir.inferFastResultKind reg level b) args args') :
    Ir.inferFastResultKind reg (level + 1) (.call name args argNames) =
      Ir.inferFastResultKind reg (level + 1) (.call name args' argNames) := by
  have hall : (args.all fun a => decide (Ir.inferFastResultKind reg level a = .double)) =
      args'.all fun a => decide (Ir.inferFastResultKind reg level a = .double) := by
    induction h with
    | nil => rfl
    | cons hkind _ ih => rw [List.all_cons, List.all_cons, hkind, ih]
  cases hname : name == "if" with
  | false => simp only [Ir.inferFastResultKind, hname, hall]
  | true =>
    cases h with
    | nil => rfl
    | cons hc h =>
      cases h with
      | nil => simp only [Ir.inferFastResultKind, hname, hall]
      | cons ht h =>
        cases h with
        | nil => simp only [Ir.inferFastResultKind, hname, hall]
        | cons he h =>
          cases h with
          | nil => simp only [Ir.inferFastResultKind, hname, hc, ht, he]
          | cons _ h => simp only [Ir.inferFastResultKind, hname, hall]

omit [Double D] in
theorem kind_substitute (hargs : ∀ a ∈ orderedArgs, isNumberLeaf a = true) (level : Nat) (ast : Ast D) :
    Ir.inferFastResultKind reg level (substituteDefinedArgs entry orderedArgs ast) =
      Ir.inferFastResultKind reg level ast := by
  induction level generalizing ast with
  | zero => rfl
  | succ level ih =>
    cases ast with
    | number _ | int64 _ | bool _ | string _ | param _ | array _ | record _ _ | fieldOf _ _ | index _ _
    | producerAccess _ _ _ _ => rfl
    | identifier name =>
      rw [substituteDefinedArgs]
      cases hmapped : definedArgForName entry orderedArgs name with
      | none => rfl
      | some a => exact kind_numberLeaf (hargs a (definedArgForName_mem hmapped)) level
    | fieldAccess object field =>
      rw [substituteDefinedArgs]
      split <;> rfl
    | chainAccess path =>
      rw [substituteDefinedArgs]
      split
      · unfold chainWithReplacedRoot
        split <;> rfl
      · rfl
    | unary op a => simp only [substituteDefinedArgs, Ir.inferFastResultKind, ih]
    | binary op l r => simp only [substituteDefinedArgs, Ir.inferFastResultKind, ih]
    | ternary c t e => simp only [substituteDefinedArgs, Ir.inferFastResultKind, ih]
    | call name args argNames =>
      rw [substituteDefinedArgs, substituteAll_eq_map]
      refine kind_call_congr ?_
      rw [List.forall₂_map_left_iff]
      exact List.forall₂_same.mpr fun a _ => ih a

omit [Double D] in
theorem kind_plainBody {args : List (Ast D)} {argNames : List (Option String)} {body : Ast D}
    {t : ValueType} (hplain : plainBody reg name = some (entry, body)) (hif : ¬ (name = "if" ∧ args.length = 3))
    (ht : resultType (Ir.inferFastResultKind reg (level + 1) (.call name args argNames)) = some t) :
    resultType (Ir.inferFastResultKind reg level body) = some t ∧
      ∀ a ∈ args, Ir.inferFastResultKind reg level a = .double := by
  obtain ⟨hfind, -, -, -, hvalue, -, hscalar, hbody⟩ := plainBody_eq_some hplain
  simp only [Ir.inferFastResultKind, hfind] at ht
  split at ht
  · exact (hif ⟨beq_iff_eq.mp ‹(name == "if") = true›, rfl⟩).elim
  · split at ht
    · cases ht
    · rename_i hconditions
      simp only [hvalue, hbody, Option.isSome_none, Option.isNone_some, Bool.and_false, Bool.false_eq_true, if_false] at ht
      refine ⟨ht, fun a ha => ?_⟩
      simp only [Bool.or_eq_true, Bool.not_eq_true', not_or, Bool.not_eq_false] at hconditions
      exact of_decide_eq_true (List.all_eq_true.mp hconditions.2 a ha)

end

section
variable {reg : Registry D}

variable {ctx ctx' : Context D} {v : Value D} {t : ValueType} {entry : FuncEntry D} {argNames : List (Option String)}
variable {level depth : Nat}

omit [Double D] in
theorem type_eq_iff_of_run {act : EvalM D (Value D)} {k : Option ValueType} (ht : k = some t) (h : act ctx = .ok (v, ctx')) :
    v.type = t ↔ ∀ w ctx₁, act ctx = .ok (w, ctx₁) → k = some w.type := by
  constructor
  · rintro rfl w ctx₁ hw
    rw [h] at hw
    cases hw
    exact ht
  · intro hall
    have heq := hall v ctx' h
    rw [ht] at heq
    exact (Option.some.inj heq).symm

def HoldsBelow (reg : Registry D) (level : Nat) : Prop :=
  ∀ (depth : Nat) (ast : Ast D) (ctx ctx' : Context D) (v : Value D) (t : ValueType),
    resultType (Ir.inferFastResultKind reg level ast) = some t → evalDepth reg depth ast ctx = .ok (v, ctx') →
      (v.type = t ↔ KindHolds reg level depth ast ctx)

omit [Double D] in
theorem callBindArgs_length_le {α : Type} {args ordered : List α}
    (h : callBindArgs entry args argNames = .ok ordered) : ordered.length ≤ maxCallArgs := by
  rw [(callBindArgs_mem h).1]
  unfold callBindArgs at h
  split at h
  · cases h
  · rename_i hle
    exact Nat.le_of_not_lt hle

theorem bodyRun_expr {body : Ast D} {ordered : List (Ast D × EvalM D (Value D))} {run : Ast D × Option (Frame D)} (h : bodyRun entry body ordered ctx = .ok (run, ctx')) :
    run.1 = body ∨ ((∀ a ∈ ordered.map (·.1), inlineArgIsStable a = true) ∧
      run.1 = substituteDefinedArgs entry (ordered.map (·.1)) body) := by
  unfold bodyRun at h
  split at h
  · cases h
  split at h
  · rename_i hinline
    cases h
    simp only [canInlineValueArgs, Bool.and_eq_true, List.all_eq_true] at hinline
    exact .inr ⟨hinline.2, rfl⟩
  rw [bind_apply_ok (show (get : EvalM D (Context D)) ctx = .ok (ctx, ctx) from rfl)] at h
  split at h
  · obtain ⟨tmp, ctx₁, -, hret⟩ := bind_apply_eq_ok.mp h
    cases hret
    exact .inl rfl
  · obtain ⟨values, ctx₁, -, hret⟩ := bind_apply_eq_ok.mp h
    cases hret
    exact .inl rfl

omit [Double D] in
theorem ternaryKind_eq {c t e : Ir.ResultKind} {type : ValueType} (h : resultType (Ir.ternaryKind c t e) = some type) :
    resultType t = some type ∧ resultType e = some type := by
  unfold Ir.ternaryKind at h
  split at h
  · rename_i hsame
    exact ⟨h, hsame.2 ▸ h⟩
  · cases h

omit [Double D] in
theorem binaryKind_arithmetic {op : BinaryOp} {l r : Ir.ResultKind} (hop : isArithmetic op = true)
    (h : resultType (Ir.binaryKind op l r) = some t) : l = .double ∧ r = .double ∧ t = .number := by
  cases op with
  | plus | minus | star | slash | percent | power =>
    simp only [Ir.binaryKind] at h
    split at h
    · rename_i hboth
      cases h
      exact ⟨hboth.1, hboth.2, rfl⟩
    · cases h
  | _ => cases hop

omit [Double D] in
theorem binaryKind_bool {op : BinaryOp} {l r : Ir.ResultKind} (hop : isArithmetic op = false)
    (h : resultType (Ir.binaryKind op l r) = some t) : t = .bool := by
  cases op with
  | plus | minus | star | slash | percent | power => cases hop
  | _ =>
    simp only [Ir.binaryKind] at h
    split at h
    · cases h
      rfl
    · cases h

theorem kindHolds_branch (ih : HoldsBelow reg level) {message : String} {c t e : Ast D} {type : ValueType}
    (ht : resultType (Ir.ternaryKind (Ir.inferFastResultKind reg level c) (Ir.inferFastResultKind reg level t)
      (Ir.inferFastResultKind reg level e)) = some type)
    (h : evalTernary message (evalDepth reg depth c) (evalDepth reg depth t) (evalDepth reg depth e) ctx = .ok (v, ctx')) :
    v.type = type ↔ ∀ b ctx₁, evalDepth reg depth c ctx = .ok (.bool b, ctx₁) →
      KindHolds reg level depth (if b then t else e) ctx₁ := by
  obtain ⟨b, ctx₁, hc, hbranch⟩ := evalTernary_run h
  obtain ⟨htrue, hfalse⟩ := ternaryKind_eq ht
  have hiff : v.type = type ↔ KindHolds reg level depth (if b then t else e) ctx₁ := by
    cases b with
    | true => exact ih depth t ctx₁ ctx' v type htrue hbranch
    | false => exact ih depth e ctx₁ ctx' v type hfalse hbranch
  rw [hiff]
  constructor
  · intro hholds b' ctx₂ hc'
    rw [hc] at hc'
    cases hc'
    exact hholds
  · exact fun hall => hall b ctx₁ hc

theorem kindHolds_plainBody (ih : HoldsBelow reg level) {name : String} {args : List (Ast D)} {acts : List (EvalM D (Value D))} {body : Ast D} (hplain : plainBody reg name = some (entry, body))
    (ht : resultType (Ir.inferFastResultKind reg level body) = some t)
    (hargs : ∀ a ∈ args, Ir.inferFastResultKind reg level a = .double)
    (h : evalCall reg (evalDepth reg depth) name args argNames acts ctx = .ok (v, ctx')) :
    v.type = t ↔ ∀ ordered run ctx₁, callBindArgs entry (args.zip acts) argNames = .ok ordered →
      bodyRun entry body ordered ctx = .ok (run, ctx₁) → KindHolds reg level depth run.1 (run.2.toList ++ ctx₁) := by
  obtain ⟨hfind, hast, hproducer, hmodel, hvalue, hrecord, hscalar, hbody⟩ := plainBody_eq_some hplain
  obtain ⟨ordered, hordered, hdefined⟩ := evalCall_plainBody hplain h
  have hmem : ∀ a ∈ ordered.map (·.1), a ∈ args := by
    intro a ha
    obtain ⟨x, hx, rfl⟩ := List.mem_map.mp ha
    exact (List.of_mem_zip ((callBindArgs_mem hordered).2 x hx)).1
  have hfield : ∀ object field, body ≠ .fieldAccess object field := by
    rintro object field rfl
    cases level <;> cases ht
  have hchain : ∀ path, body ≠ .chainAccess path := by
    rintro path rfl
    cases level <;> cases ht
  obtain ⟨run, ctx₁, ctx₂, hrun, hdeeper⟩ :=
    evalDefinedFunction_run hbody hrecord hscalar (callBindArgs_length_le hordered) hfield hchain hdefined
  have hkind : Ir.inferFastResultKind reg level run.1 = Ir.inferFastResultKind reg level body := by
    rcases bodyRun_expr hrun with heq | ⟨hinline, heq⟩
    · rw [heq]
    · rw [heq]
      exact kind_substitute (fun a ha => isNumberLeaf_of_stable (hinline a ha) (hargs a (hmem a ha))) level body
  rw [ih depth run.1 (run.2.toList ++ ctx₁) ctx₂ v t (hkind ▸ ht) hdeeper]
  constructor
  · intro hholds ordered' run' ctx₃ hordered' hrun'
    rw [hordered] at hordered'
    cases hordered'
    rw [hrun] at hrun'
    cases hrun'
    exact hholds
  · exact fun hall => hall ordered run ctx₁ hordered hrun

theorem kindHolds_call (ih : HoldsBelow reg level) {name : String} {args : List (Ast D)}
    (ht : resultType (Ir.inferFastResultKind reg (level + 1) (.call name args argNames)) = some t)
    (h : evalDepth reg (depth + 1) (.call name args argNames) ctx = .ok (v, ctx')) :
    v.type = t ↔ KindHolds reg (level + 1) (depth + 1) (.call name args argNames) ctx := by
  rw [evalDepth, evalNode] at h
  simp only [KindHolds, Nat.add_sub_cancel]
  rcases memoized_run h with hkept | ⟨hnone, ctx₁, hcall⟩
  · simp only [hkept, ht, Option.some.injEq]
    exact eq_comm
  simp only [hnone]
  by_cases hif : name = "if" ∧ args.length = 3
  · obtain ⟨rfl, hthree⟩ := hif
    obtain ⟨c, t', e, rfl⟩ := List.length_eq_three.mp hthree
    simp only [beq_self_eq_true]
    split
    · rename_i hplain
      simp only [Bool.and_eq_true, Bool.not_eq_true'] at hplain
      have hkind : Ir.inferFastResultKind reg (level + 1) (.call "if" [c, t', e] argNames) =
          Ir.ternaryKind (Ir.inferFastResultKind reg level c) (Ir.inferFastResultKind reg level t')
            (Ir.inferFastResultKind reg level e) := by
        simp only [Ir.inferFastResultKind, beq_self_eq_true]
      rw [hkind] at ht
      exact kindHolds_branch ih ht (evalCall_plainIf hplain.1 rfl hplain.2 hcall)
    · exact type_eq_iff_of_run ht hcall
  · split
    · exact (hif ⟨beq_iff_eq.mp ‹(name == "if") = true›, rfl⟩).elim
    · cases hplain : plainBody reg name with
      | none => exact type_eq_iff_of_run ht hcall
      | some found =>
        obtain ⟨entry, body⟩ := found
        obtain ⟨hbody, hargs⟩ := kind_plainBody hplain hif ht
        exact kindHolds_plainBody ih hplain hbody hargs hcall

theorem type_eq_iff_kindHolds (level : Nat) : HoldsBelow reg level := by
  induction level with
  | zero =>
    intro depth ast ctx ctx' v t ht
    cases ht
  | succ level ih =>
    intro depth ast ctx ctx' v t ht h
    cases depth with
    | zero => cases h
    | succ depth =>
      cases ast with
      | int64 _ | string _ | array _ | record _ _ | fieldAccess _ _ | fieldOf _ _ | chainAccess _
      | producerAccess _ _ _ _ | index _ _ => cases ht
      | number d =>
        cases ht
        cases h
        simp [KindHolds, Value.type]
      | bool b =>
        cases ht
        cases h
        simp [KindHolds, Value.type]
      | identifier name =>
        cases ht
        rw [evalDepth, evalNode, bind_apply_ok (show (get : EvalM D (Context D)) ctx = .ok (ctx, ctx) from rfl)] at h
        rw [KindHolds]
        cases hvalue : ctx.getTyped name with
        | none =>
          rw [hvalue] at h
          cases h
        | some w =>
          rw [hvalue] at h
          cases h
          simp
      | param name =>
        cases ht
        rw [evalDepth, evalNode, bind_apply_ok (show (get : EvalM D (Context D)) ctx = .ok (ctx, ctx) from rfl)] at h
        rw [KindHolds]
        cases hvalue : ctx.getParamTyped name with
        | none =>
          rw [hvalue] at h
          cases h
        | some w =>
          rw [hvalue] at h
          cases h
          simp
      | unary op a =>
        rw [evalDepth, evalNode] at h
        obtain ⟨x, ctx₁, hoperand, hrest⟩ := bind_apply_eq_ok.mp h
        obtain ⟨hunary, rfl⟩ := lift_apply_eq_ok.mp hrest
        obtain ⟨hminus, hnot⟩ := unaryValue_type hunary
        rw [KindHolds]
        simp only [Ir.inferFastResultKind] at ht
        split at ht
        · rename_i hkind
          cases ht
          rw [← hminus rfl, ih (depth + 1) a ctx ctx' x .number (by rw [hkind]; rfl) hoperand]
          simp
        · cases ht
          simp [hnot rfl]
        · cases ht
      | binary op l r =>
        rw [evalDepth, evalNode] at h
        rw [KindHolds]
        simp only [Ir.inferFastResultKind] at ht
        cases hop : isArithmetic op with
        | false =>
          rw [binaryKind_bool hop ht]
          simp [evalBinary_bool hop h]
        | true =>
          obtain ⟨hl, hr, rfl⟩ : Ir.inferFastResultKind reg level l = .double ∧
              Ir.inferFastResultKind reg level r = .double ∧ t = .number := binaryKind_arithmetic hop ht
          obtain ⟨x, ctx₁, y, hleft, hright, hvalue⟩ := evalBinary_arithmetic hop h
          have hleftHolds := ih (depth + 1) l ctx ctx₁ x .number (by rw [hl]; rfl) hleft
          have hrightHolds := ih (depth + 1) r ctx₁ ctx' y .number (by rw [hr]; rfl) hright
          rw [arithmeticOp_number_iff hvalue, hleftHolds, hrightHolds]
          constructor
          · intro hholds _ x' ctx₂ y' ctx₃ hleft' hright'
            have hl' := hleft.symm.trans hleft'
            cases hl'
            have hr' := hright.symm.trans hright'
            cases hr'
            exact hholds
          · exact fun hall => hall rfl x ctx₁ y ctx' hleft hright
      | ternary c t' e => exact kindHolds_branch ih ht h
      | call name args argNames => exact kindHolds_call ih ht h

end
end Cxpr.Typecheck
