import Cxpr.Eval.Tree
import Cxpr.Ir.Fast

/-! Compiled expressions on a context (`src/ir/exec/lookup.c`, `src/ir/exec/calls.c`, `src/ir/exec/api.c` and
    `cxpr_expr_compile`): the runtime calls of the executors as the context, the registry and the tree evaluator answer
    them, and the choice of the executor. Lookups are those of a cold lookup cache. -/

namespace Cxpr.Ir
open Eval
variable {D : Type} [Double D]

/-- `cxpr_ir_lookup_cached_scalar` on a variable, without the cache. -/
def lookupScalar (ctx : Context D) (name : String) : Option D :=
  match (expressionScope ctx).bind (· name) with
  | some (.number d) => some d
  | some (.bool b) => some (Double.ofBool b)
  | some _ => none
  | none => ctx.getPrehashed name

def loadVariableTyped (ctx : Context D) (name : String) : Option (Value D) :=
  (expressionScope ctx).bind (· name) <|> (ctx.getTyped name <|> (lookupScalar ctx name).map .number)

omit [Double D] in
/-- The `LOAD_PARAM` case of the typed executor. -/
def loadParamTyped (ctx : Context D) (name : String) : Option (Value D) :=
  (ctx.getParamBool name).map .bool <|>
    ((ctx.getParamString name).map .string <|> (ctx.getParam name).map .number)

def loadFieldValue (reg : Registry D) (callProducer : FuncEntry D → String → EvalM D (Value D)) (name : String) :
    EvalM D (Value D) := do
  let ctx ← get
  match name.splitOn "." with
  | [_] | [] => evalError .syntaxError "Malformed field access"
  | root :: rest =>
    let field := Ast.fullKey rest
    if root == "" || 128 ≤ root.utf8ByteSize then evalError .syntaxError "Field access root too long"
    else
      let flat : EvalM D (Value D) := do
        match ctx.getPrehashed name with
        | some d => return .number d
        | none => evalError .unknownIdentifier (unknownMessage "Unknown field access" name)
      let fromContext : EvalM D (Value D) := do
        match ctx.getField root field with
        | some v => return v
        | none =>
          match reg.find root with
          | some producer =>
            if producer.structProducer.isSome && producer.minArgs = 0 && producer.maxArgs = 0 then
              match ← callProducer producer root with
              | .struct s =>
                match structGetField s field with
                | some v => return v
                | none => flat
              | _ => flat
            else flat
          | none => flat
      match expressionScope ctx with
      | none => fromContext
      | some scope =>
        match scope name, scope root with
        | some v, _ => return v
        | none, none | none, some (.struct _) => fromContext
        | none, some _ => evalError .unknownIdentifier "Expression-scope chain has no struct prefix"

def loadNamedFieldValue (name aux : String) : EvalM D (Value D) := do
  let ctx ← get
  match ctx.getField name aux with
  | some v => return v
  | none =>
    if 256 ≤ (Ast.fullKey [name, aux]).utf8ByteSize then evalError .syntaxError "Field access root too long"
    else
      match ctx.getPrehashed (Ast.fullKey [name, aux]) with
      | some d => return .number d
      | none => evalError .unknownIdentifier (unknownMessage "Unknown field access" name)

omit [Double D] in
/-- The field walk of `cxpr_ir_load_chain_value`. -/
def walkChain : List (String × Value D) → List String → Except Error (Value D)
  | _, [] => .error ⟨.syntaxError, "Malformed chain access"⟩
  | current, segment :: rest =>
    match structGetField current segment with
    | none => .error ⟨.unknownIdentifier, unknownMessage "Unknown identifier" segment⟩
    | some v =>
      if rest.isEmpty then .ok v
      else
        match v with
        | .struct s => walkChain s rest
        | _ => .error ⟨.typeMismatch, "Chained access requires struct intermediate"⟩

omit [Double D] in
/-- The longest prefix of a chain that the expression scope holds as a struct, with the rest of the path, and whether
    any prefix was found. -/
def longestScopedPrefix (scope : String → Option (Value D)) : String → List String →
    Option (List (String × Value D) × List String) × Bool
  | _, [] | _, [_] => (none, false)
  | done, segment :: rest =>
    let text := if done == "" then segment else done ++ "." ++ segment
    let (later, found) := longestScopedPrefix scope text rest
    match scope text with
    | some (.struct s) => (later <|> some (s, rest), true)
    | some _ => (later, true)
    | none => (later, found)

omit [Double D] in
def loadChainValue (ctx : Context D) (name : String) : Except Error (Value D) :=
  let path := name.splitOn "."
  let fromContext : Except Error (Value D) :=
    match path.filter (· ≠ "") with
    | [] => .error ⟨.syntaxError, "Malformed chain access"⟩
    | root :: rest =>
      match ctx.getStruct root, ctx.getTyped root with
      | some s, _ | none, some (.struct s) => walkChain s rest
      | none, _ => .error ⟨.unknownIdentifier, unknownMessage "Unknown identifier" root⟩
  match expressionScope ctx with
  | none => fromContext
  | some scope =>
    match longestScopedPrefix scope "" path with
    | (some (s, rest), _) => walkChain s rest
    | (none, true) => .error ⟨.unknownIdentifier, "Expression-scope chain has no struct prefix"⟩
    | (none, false) => fromContext

omit [Double D] in
def runtimeArray (ctx : Context D) : Ast D → Option (List (Value D))
  | .identifier name =>
    match ctx.getTyped name with
    | some (.array values) => some values
    | _ => none
  | _ => none

/-- `cxpr_ir_resolve_lookback_target`, and the `LOOKBACK_RESOLVE` case: a runtime array, the resolver for a target
    that is no identifier, a capability, and the resolver at last. -/
def resolveLookback (reg : Registry D) (target : Ast D) (offset : Nat) : EvalM D (Value D) := do
  let ctx ← get
  let failed : EvalM D (Value D) := evalError .syntaxError "Lookback resolver failed"
  let ask : EvalM D (Option (Value D)) := do
    match reg.lookbackResolver with
    | none => return none
    | some resolver => (resolver target (.number (Double.ofNat offset)) ctx : Except Error _)
  match runtimeArray ctx target with
  | some values =>
    match values[offset]? with
    | some v => return v
    | none => evalError .invalidIndex "Array index out of range"
  | none =>
    let early ← if isIdentifier target then pure none else ask
    match early with
    | some v => return v
    | none =>
      match ← (reg.selectIndexCapability target : Except Error _) with
      | some capability => capability.resolve target offset ctx
      | none =>
        match ← ask with
        | some v => return v
        | none => failed

/-! ### Calls -/

def callProducerCached (entry : FuncEntry D) (name : String) (cacheKey : Option String) (args : List (Value D)) :
    EvalM D (Value D) := do
  match entry.structProducer with
  | none => evalError .syntaxError "Invalid producer opcode"
  | some producer =>
    if args.length < entry.minArgs || entry.maxArgs < args.length then
      evalError .wrongArity "Wrong number of arguments"
    else if maxCallArgs < args.length || maxProducerFields < entry.fieldsPerArg then
      evalError .syntaxError "Producer arity too large"
    else
      let ctx ← get
      match cacheKey.bind ctx.getCachedStruct with
      | some existing => return .struct existing
      | none =>
        let ds ← (args.mapM (requireNumber · "Producer arguments must be doubles") : Except Error _)
        let key := cacheKey.getD (buildStructCacheKey name ds)
        match ctx.getCachedStruct key with
        | some existing => return .struct existing
        | none =>
          let produced := ((entry.structFields.getD []).zip (producer ds)).take entry.fieldsPerArg
          modify fun ctx => ctx.update (·.setCachedStruct key produced)
          return .struct produced

def callProducerConstField (entry : FuncEntry D) (key : String) (args : List D) (field : String) :
    EvalM D (Value D) := do
  match ← callProducerCached entry entry.name (some key) (args.map .number) with
  | .struct fields => Eval.producedField fields field
  | _ => evalError .unknownIdentifier "Unknown field access"

/-- One parameter of a record function called from the IR: dotted variables of the argument's name stand in for a
    struct that is not there. -/
def bindDefinedArg (ctx : Context D) (tmp : Frame D) (pname : String) (fields : List String) (argAst : Option (Ast D))
    (value : Value D) : Except Error (Frame D) :=
  match value, argAst, fields with
  | .struct _, _, _ | _, _, [] => .ok (bindArg tmp pname value)
  | value, some (.identifier root), fields =>
    bindFields pname (fun field =>
      match ctx.get (root ++ "." ++ field) <|> ctx.get (root ++ "_" ++ field) with
      | some d => .ok d
      | none => .error ⟨.unknownIdentifier, "Unknown struct field"⟩) fields tmp
  | value, _, _ => .ok (bindArg tmp pname value)

def bindDefinedArgs (ctx : Context D) :
    List (String × List String × Option (Ast D) × Value D) → Frame D → Except Error (Frame D)
  | [], tmp => .ok tmp
  | (pname, fields, argAst, value) :: rest, tmp => do
    bindDefinedArgs ctx rest (← bindDefinedArg ctx tmp pname fields argAst value)

def payloadArgs : Ast D → List (Ast D)
  | .call _ args _ => args
  | _ => []

def evalReturnFieldsAst (reg : Registry D) (depth : Nat) : List (String × Ast D) → EvalM D (List (String × Value D))
  | [] => return []
  | (name, body) :: rest => do
    let v ← evalAst reg depth body
    return (name, v) :: (← evalReturnFieldsAst reg depth rest)

/-- `cxpr_ir_call_defined_scalar`. `CALL_DEFINED` of a function with a body always carries its call node, so its body
    is left to `cxpr_eval_defined_function`, which evaluates the arguments again. -/
def callDefinedScalar (reg : Registry D) (depth : Nat) (entry : FuncEntry D) (payload : Ast D)
    (args : List (Value D)) : EvalM D (Value D) := do
  let names := entry.definedParamNames
  if entry.definedBody.isNone && entry.definedReturnFields.isEmpty then
    evalError .syntaxError "NULL IR defined function entry"
  else if args.length ≠ names.length then evalError .wrongArity "Wrong number of arguments"
  else if !entry.definedReturnFields.isEmpty then
    let argAsts := payloadArgs payload
    let params := (names.zip args).zipIdx.map fun ((pname, v), i) =>
      (pname, entry.definedParamFields.getD i [], argAsts[i]?, v)
    let ctx ← get
    let tmp ← (bindDefinedArgs ctx params {} : Except Error _)
    return .struct (← inOverlay tmp (evalReturnFieldsAst reg depth entry.definedReturnFields))
  else
    match payload with
    | .call _ argAsts argNames =>
      let ordered ← (callBindArgs entry (argAsts.zip (evalActs reg (evalDepth reg depth) argAsts)) argNames :
        Except Error _)
      evalDefinedFunction (evalDepth reg depth) entry ordered
    | _ => evalError .syntaxError "NULL IR defined function entry"

/-- The memo calls of the executors (`cxpr_ir_call_memo_get`, `cxpr_ir_call_memo_set`). -/
def callMemoable (func : FuncEntry D) (payload : Ast D) : Bool :=
  memoable func &&
    match payload with
    | .call _ _ _ => true
    | _ => false

def contextHost (reg : Registry D) (depth : Nat) : Host (Context D) D where
  loadVariableTyped _ name := fun ctx => .ok (loadVariableTyped ctx name, ctx)
  loadParam _ name := fun ctx => .ok (loadParamTyped ctx name, ctx)
  lookupCachedParam _ name := fun ctx => .ok (ctx.getParam name, ctx)
  lookupCachedVariable _ name := fun ctx => .ok (lookupScalar ctx name, ctx)
  loadFieldValue name := loadFieldValue reg (fun producer root => callProducerCached producer root none []) name
  loadNamedFieldValue name aux := loadNamedFieldValue name aux
  loadChainValue name := do loadChainValue (← get) name
  resolveLookbackTarget target offset := resolveLookback reg target offset
  canResolveIndex := reg.lookbackResolver.isSome || reg.hasIndexCapabilities
  lookbackResolve target offset := resolveLookback reg target offset
  memoGet func payload := if callMemoable func payload then memoGet payload else pure none
  memoSet func payload v := if callMemoable func payload then memoSet payload v else pure ()
  callTyped func args := registryCallTyped reg func.name args
  callDefinedScalar func payload args := callDefinedScalar reg depth func payload args
  callProducerCached func name key args := callProducerCached func name key args
  callProducerConstField func key args field := callProducerConstField func key args field
  evalAst ast := evalAst reg depth ast

def exprCompile (ast : Ast D) (reg : Registry D) : Except Error (CompiledIr D) := do
  let _ ← typecheck ast reg
  compileProgram ast reg []

omit [Double D] in
def isBareIdentifier : Program D → Bool
  | [.loadVar _ _, .ret] => true
  | _ => false

/-- The result of an executor as the caller sees it. Compiled programs end, so a run out of rounds does not occur. -/
def outcome {α : Type} (r : Option (Except Fault (α × Context D))) : Except Error (α × Context D) :=
  match r with
  | some (.ok v) => .ok v
  | some (.error f) => .error f.error
  | none => .error ⟨.syntaxError, "IR program fell off end without return"⟩

def compiledEvalValue (prog : CompiledIr D) (reg : Registry D) (depth : Nat) : EvalM D (Value D) := fun ctx =>
  let typed := outcome (execTyped prog.code (contextHost reg depth) [] ctx)
  match prog.fastResultKind with
  | .double =>
    -- a failing fast run is repeated by the typed executor
    let fast := match outcome (execScalarFast prog.code (contextHost reg depth) [] ctx) with
      | .ok (d, ctx) => .ok (.number d, ctx)
      | .error e =>
        match typed with
        | .ok r => .ok r
        | .error _ => .error e
    if isBareIdentifier prog.code then
      match typed with
      | .ok r => .ok r
      | .error _ => fast
    else fast
  | .bool =>
    match outcome (execBoolFast prog.code (contextHost reg depth) [] ctx) with
    | .ok (b, ctx) => .ok (.bool b, ctx)
    | .error e => .error e
  | .unknown => typed

/-- `cxpr_expr_compile` and `cxpr_expr_compiled_eval`. -/
def compiledEval (ast : Ast D) (reg : Registry D) (depth : Nat) : EvalM D (Value D) := fun ctx => do
  compiledEvalValue (← exprCompile ast reg) reg depth ctx

end Cxpr.Ir
