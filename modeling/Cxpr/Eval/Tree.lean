import Cxpr.Eval.Defined
import Cxpr.Ir.Constant
import Cxpr.Typecheck
import Cxpr.ValueOps

/-! The tree-walk evaluator (`src/eval/tree.c`, `src/eval/calls.c`, `src/eval/calls/producer.c`). The recursion over the
    node is `evalNode`; the body of a defined function is evaluated by `deeper`, one call level down. Evaluation is
    outside a lookback, so the thread's lookback offset is zero. -/

namespace Cxpr.Eval
variable {D : Type}

section
variable [Double D]

/-- A result of `cxpr_value_binary_op`, or the caller's own type error when it is not handled. -/
def handledOr (handled : ValueOps.Handled D) (message : String) : Except Error (Value D) :=
  handled.getD (.error ⟨.typeMismatch, message⟩)

def arithValOp : BinaryOp → Option ValOp
  | .plus => some .add
  | .minus => some .sub
  | .star => some .mul
  | .slash => some .div
  | _ => none

def arithmeticOp (op : BinaryOp) (left right : Value D) : Except Error (Value D) :=
  match left, right with
  | .number a, .number b =>
    match op with
    | .plus => .ok (.number (Double.add a b))
    | .minus => .ok (.number (Double.sub a b))
    | .star => .ok (.number (Double.mul a b))
    | .slash =>
      if Double.eq b Double.zero then .error ⟨.divisionByZero, "Division by zero"⟩
      else .ok (.number (Double.div a b))
    | .percent =>
      if Double.eq b Double.zero then .error ⟨.divisionByZero, "Modulo by zero"⟩
      else .ok (.number (Double.fmod a b))
    | _ => .ok (.number (Double.pow a b))
  | left, right =>
    handledOr ((arithValOp op).bind (valueBinaryOp · left right)) "Arithmetic requires double operands"

def comparisonOp (op : BinaryOp) (left right : Value D) : Except Error (Value D) :=
  match left, right with
  | .number a, .number b =>
    .ok <| .bool <| match op with
      | .lt => Double.lt a b
      | .lte => Double.le a b
      | .gt => Double.gt a b
      | _ => Double.ge a b
  | left, right =>
    let valOp : ValOp := match op with
      | .lt => .lt
      | .lte => .lte
      | .gt => .gt
      | _ => .gte
    handledOr (valueBinaryOp valOp left right) "Comparison requires double operands"

/-- `cxpr_eval_values_equal`. -/
def valuesEqual : Value D → Value D → Option Bool
  | .number a, .number b => some (Double.eq a b)
  | .bool a, .bool b => some (a == b)
  | .string a, .string b => some (a == b)
  | .null, .null => some true
  | .timestamp a, .timestamp b | .duration a, .duration b | .int64 a, .int64 b => some (a == b)
  | _, _ => none

def equalityOp (op : BinaryOp) (left right : Value D) : Except Error (Value D) :=
  match valuesEqual left right with
  | some equal => .ok (.bool (if op = .eq then equal else !equal))
  | none => .error ⟨.typeMismatch, "Equality requires matching scalar types"⟩

def binaryValues (op : BinaryOp) (left right : Value D) : Except Error (Value D) :=
  match op with
  | .plus | .minus | .star | .slash | .percent | .power => arithmeticOp op left right
  | .lt | .lte | .gt | .gte => comparisonOp op left right
  | .eq | .neq => equalityOp op left right
  | .and | .or => .error ⟨.syntaxError, "Unknown binary operator"⟩

omit [Double D] in
/-- `cxpr_require_type`. -/
def requireBool (value : Value D) (message : String) : Except Error Bool :=
  match value with
  | .bool b => .ok b
  | _ => .error ⟨.typeMismatch, message⟩

omit [Double D] in
/-- `cxpr_require_type` for a number. -/
def requireNumber (value : Value D) (message : String) : Except Error D :=
  match value with
  | .number d => .ok d
  | _ => .error ⟨.typeMismatch, message⟩

/-- `cxpr_eval_unary_op`. -/
def unaryValue (op : UnaryOp) (operand : Value D) : Except Error (Value D) :=
  match op with
  | .minus =>
    match operand with
    | .int64 i =>
      if i = Int64.minValue then .error ⟨.typeMismatch, "int64 negation overflow"⟩ else .ok (.int64 (-i))
    | operand => do return .number (Double.neg (← requireNumber operand "Unary minus requires double"))
  | .not => do return .bool !(← requireBool operand "Logical not requires bool")

/-- `cxpr_eval_binary_op`. -/
def evalBinary (op : BinaryOp) (left right : EvalM D (Value D)) : EvalM D (Value D) := do
  let l ← left
  match op with
  | .and =>
    if ← requireBool l "Logical operators require bool" then
      return .bool (← requireBool (← right) "Logical operators require bool")
    else return .bool false
  | .or =>
    if ← requireBool l "Logical operators require bool" then return .bool true
    else return .bool (← requireBool (← right) "Logical operators require bool")
  | op => binaryValues op l (← right)

omit [Double D] in
/-- `cxpr_eval_ternary_op`. -/
def evalTernary (message : String) (c t e : EvalM D (Value D)) : EvalM D (Value D) := do
  if ← requireBool (← c) message then t else e

/-! ### Accesses -/

omit [Double D] in
def unknownMessage (kind name : String) : String := if name == "" then kind else kind ++ " '" ++ name ++ "'"

omit [Double D] in
def unknownParameterMessage (name : String) : String :=
  if name == "" then "Unknown parameter variable" else "Unknown parameter variable '$" ++ name ++ "'"

omit [Double D] in
def structFieldValue (record : List (String × Value D)) (field : String) : Except Error (Value D) :=
  match structGetField record field with
  | some v => .ok v
  | none => .error ⟨.unknownIdentifier, unknownMessage "Unknown field access" field⟩

omit [Double D] in
def expressionScope (ctx : Context D) : Option (String → Option (Value D)) := ctx.head?.bind (·.expressionScope)

def buildStructCacheKey (name : String) (args : List D) : String :=
  if args.isEmpty then name else name ++ "(" ++ ",".intercalate (args.map Double.hex) ++ ")"

omit [Double D] in
def scalarArg (act : EvalM D (Value D)) : EvalM D D := do requireNumber (← act) "Expected double argument"

omit [Double D] in
def scalarArgs : List (EvalM D (Value D)) → EvalM D (List D)
  | [] => return []
  | act :: acts => do
    let d ← scalarArg act
    return d :: (← scalarArgs acts)

def maxProducerFields : Nat := 64

/-- `cxpr_eval_struct_result`. -/
def structResult (entry : FuncEntry D) (name : String) (acts : List (EvalM D (Value D)))
    (cacheKeyHint : Option String) : EvalM D (List (String × Value D)) := do
  match entry.structProducer with
  | none => evalError .unknownFunction (unknownMessage "Unknown function" name)
  | some producer =>
    if acts.length < entry.minArgs || entry.maxArgs < acts.length then
      evalError .wrongArity "Wrong number of arguments"
    else if maxCallArgs < acts.length || maxProducerFields < entry.fieldsPerArg then
      evalError .syntaxError "Producer arity too large"
    else
      let args ← scalarArgs acts
      let key := cacheKeyHint.getD (buildStructCacheKey name args)
      match (← get).getCachedStruct key with
      | some existing => return existing
      | none =>
        let produced := ((entry.structFields.getD []).zip (producer args)).take entry.fieldsPerArg
        modify fun ctx => ctx.update (·.setCachedStruct key produced)
        return produced

omit [Double D] in
def producedField (produced : List (String × Value D)) (field : String) : Except Error (Value D) :=
  match structGetField produced field with
  | some v => .ok v
  | none => .error ⟨.unknownIdentifier, "Unknown field access"⟩

/-- The field case of `cxpr_eval_field_access` on a named object. -/
def evalFieldAccess (reg : Registry D) (object field : String) : EvalM D (Value D) := do
  let ctx ← get
  let fullKey := Ast.fullKey [object, field]
  let fromContext : EvalM D (Value D) := do
    match ctx.getField object field with
    | some v => return v
    | none =>
      match ctx.get fullKey with
      | some d => return .number d
      | none =>
        match reg.find object with
        | some entry =>
          if entry.structProducer.isSome then
            producedField (← structResult entry object [] none) field
          else evalError .unknownIdentifier (unknownMessage "Unknown field access" fullKey)
        | none => evalError .unknownIdentifier (unknownMessage "Unknown field access" fullKey)
  match expressionScope ctx with
  | none => fromContext
  | some scope =>
    match scope fullKey, scope object with
    | some v, _ => return v
    | none, some (.struct s) => structFieldValue s field
    | none, some _ => evalError .unknownIdentifier "Expression-scope chain has no struct prefix"
    | none, none => fromContext

omit [Double D] in
/-- The field walk of `cxpr_eval_chain_access`. -/
def walkFields (fullKey : String) : List (String × Value D) → List String → Except Error (Value D)
  | _, [] => .error ⟨.unknownIdentifier, "Unknown field access"⟩
  | current, segment :: rest =>
    match structGetField current segment with
    | none => .error ⟨.unknownIdentifier, unknownMessage "Unknown field access" fullKey⟩
    | some v =>
      if rest.isEmpty then .ok v
      else
        match v with
        | .struct s => walkFields fullKey s rest
        | _ => .error ⟨.typeMismatch, "Chain access requires struct intermediates"⟩

omit [Double D] in
/-- The prefixes of a chain that the expression scope may hold: the struct found first with the rest of the path, and
    whether any prefix was found. -/
def scopedPrefix (scope : String → Option (Value D)) : String → List String →
    Option (List (String × Value D) × List String) × Bool
  | _, [] | _, [_] => (none, false)
  | done, segment :: rest =>
    let text := if done == "" then segment else done ++ "." ++ segment
    if 512 ≤ text.utf8ByteSize then (none, false)
    else
      match scope text with
      | some (.struct s) => (some (s, rest), true)
      | some _ => ((scopedPrefix scope text rest).1, true)
      | none => scopedPrefix scope text rest

omit [Double D] in
def evalChainAccess (ctx : Context D) (path : List String) : Except Error (Value D) :=
  let fullKey := Ast.fullKey path
  let fromContext : Except Error (Value D) :=
    match path with
    | [] => .error ⟨.unknownIdentifier, "Unknown field access"⟩
    | root :: rest =>
      match ctx.getStruct root, ctx.getTyped root with
      | some s, _ | none, some (.struct s) => walkFields fullKey s rest
      | none, _ => .error ⟨.unknownIdentifier, unknownMessage "Unknown identifier" root⟩
  match expressionScope ctx with
  | none => fromContext
  | some scope =>
    match scope fullKey with
    | some v => .ok v
    | none =>
      match scopedPrefix scope "" path with
      | (some (s, rest), _) => walkFields fullKey s rest
      | (none, true) => .error ⟨.unknownIdentifier, "Expression-scope chain has no struct prefix"⟩
      | (none, false) => fromContext

/-! ### Index -/

def arrayIndex (values : List (Value D)) (index : EvalM D (Value D)) : EvalM D (Value D) := do
  match Ir.constantIndex (some (← index)) with
  | none => evalError .invalidIndex "Array index must be a finite non-negative integer"
  | some i =>
    match values[i]? with
    | some v => return v
    | none => evalError .indexOutOfRange "Array index is out of range"

def flattenLookback : Nat → Ast D → Nat × Ast D × Bool
  | offset, .index target i =>
    match (Ir.lookbackLiteralOffset i).bind (Ir.lookbackAddUnsigned offset) with
    | some summed => flattenLookback summed target
    | none => (offset, .index target i, false)
  | offset, target => (offset, target, true)

omit [Double D] in
def isIndex : Ast D → Bool
  | .index _ _ => true
  | _ => false

omit [Double D] in
def isIdentifier : Ast D → Bool
  | .identifier _ => true
  | _ => false

def capabilityOffset (value : Value D) : Except Error Int :=
  match value with
  | .number d =>
    if !Double.isfinite d || Double.lt d Double.zero || Double.ne (Double.floor d) d ||
        Double.gt d (Double.ofNat (2 ^ 63 - 1)) then
      .error ⟨.invalidIndex, "Index must be a finite non-negative integer"⟩
    else .ok (Double.toSize d)
  | _ => .error ⟨.invalidIndex, "Index must be a finite non-negative integer"⟩

def resolveCapability (capability : IndexCapability D) (target : Ast D) (index : EvalM D (Value D)) :
    EvalM D (Value D) := do
  let offset ← capabilityOffset (← index)
  capability.resolve target offset (← get)

/-- The index case of `cxpr_eval_node_uncached`. -/
def evalIndex (reg : Registry D) (target index : Ast D) (targetAct indexAct : EvalM D (Value D)) :
    EvalM D (Value D) := do
  let ctx ← get
  match (match target with | .identifier name => ctx.getTyped name | _ => none) with
  | some (.array values) => arrayIndex values indexAct
  | _ =>
    let (offset, flatTarget, complete) :=
      match Ir.lookbackLiteralOffset index with
      | some offset => flattenLookback offset target
      | none => (0, target, false)
    let moved := (Ir.lookbackLiteralOffset index).isSome && isIndex target &&
      (match target with
        | .index _ i => ((Ir.lookbackLiteralOffset i).bind
            (Ir.lookbackAddUnsigned ((Ir.lookbackLiteralOffset index).getD 0))).isSome
        | _ => false)
    let capabilityIndex : EvalM D (Value D) :=
      if moved then return .number (Double.ofNat offset) else indexAct
    let capability ←
      if isIdentifier flatTarget || reg.lookbackResolver.isNone then
        (reg.selectIndexCapability flatTarget : Except Error _)
      else pure none
    match capability with
    | some capability => resolveCapability capability flatTarget capabilityIndex
    | none =>
      let notIndexable : EvalM D (Value D) := evalError .typeMismatch "Index target is not indexable"
      match reg.lookbackResolver with
      | none =>
        match ← targetAct with
        | .array values => arrayIndex values indexAct
        | _ => notIndexable
      | some resolver =>
        -- an error of the target is dropped in favour of the resolver
        let value ← tryCatch (some <$> targetAct) fun _ => pure none
        match value with
        | some (.array values) => arrayIndex values indexAct
        | _ =>
          let resolved ← (resolver (if complete then flatTarget else target)
            (if moved && complete then .number (Double.ofNat offset) else index) (← get) : Except Error _)
          match resolved with
          | some v => return v
          | none =>
            if isIdentifier flatTarget then notIndexable
            else
              match ← (reg.selectIndexCapability flatTarget : Except Error _) with
              | some capability => resolveCapability capability flatTarget capabilityIndex
              | none => notIndexable

/-- `cxpr_eval_constant_double`. -/
def constantDouble (param : String → Option D) : Ast D → Option D
  | .number v => some v
  | .param name => param name
  | .unary .minus a => (constantDouble param a).map Double.neg
  | .binary op l r =>
    (constantDouble param l).bind fun a => (constantDouble param r).bind fun b =>
      match op with
      | .plus => some (Double.add a b)
      | .minus => some (Double.sub a b)
      | .star => some (Double.mul a b)
      | .slash => if Double.eq b Double.zero then none else some (Double.div a b)
      | .percent => if Double.eq b Double.zero then none else some (Double.fmod a b)
      | .power => some (Double.pow a b)
      | _ => none
  | .ternary c t e =>
    (constantDouble param c).bind fun v =>
      if Double.ne v Double.zero then constantDouble param t else constantDouble param e
  | _ => none

def constantKey (name : String) (args : List (Ast D)) (param : String → Option D) : Option String :=
  if maxCallArgs < args.length then none
  else (args.mapM (constantDouble param)).map (buildStructCacheKey name)

/-- `cxpr_eval_prepare_const_key_for_producer`. -/
def producerKey (name : String) (args : List (Ast D)) (argNames : List (Option String))
    (ordered : List (Ast D × EvalM D (Value D))) : EvalM D (Option String) := do
  let ctx ← get
  let fromConstants :=
    if Ast.callUsesNamedArgs args.length argNames then none else constantKey name args fun _ => none
  match fromConstants <|>
      (if args.isEmpty then none else constantKey name (ordered.map (·.1)) ctx.getParam) with
  | some key => return some key
  | none =>
    if maxCallArgs < args.length then return none
    else
      match ← tryCatch (some <$> scalarArgs (ordered.map (·.2))) fun _ => pure none with
      | some values =>
        return if values.all Double.isfinite then some (buildStructCacheKey name values) else none
      | none => return none

/-- `cxpr_eval_cached_producer_access`. -/
def evalProducerAccess (reg : Registry D) (deeper : Ast D → EvalM D (Value D)) (name : String)
    (args : List (Ast D)) (argNames : List (Option String)) (field : String)
    (acts : List (EvalM D (Value D))) : EvalM D (Value D) := do
  let unknown : EvalM D (Value D) := evalError .unknownFunction (unknownMessage "Unknown function" name)
  match reg.find name with
  | none => unknown
  | some entry =>
    if entry.structProducer.isNone && entry.modelProducer.isNone && entry.definedReturnFields.isEmpty then unknown
    else
      let ordered ← (callBindArgs entry (args.zip acts) argNames : Except Error _)
      match entry.modelProducer with
      | some producer => producer (.producerAccess name args argNames field) (← get)
      | none =>
        if !entry.definedReturnFields.isEmpty then
          let values ← evalAll (ordered.map (·.2))
          let fields ← inOverlay (bindArgs entry.definedParamNames values)
            (evalReturnFields deeper entry.definedReturnFields)
          producedField fields field
        else
          let key ← producerKey name args argNames ordered
          match key.bind (← get).getCachedStruct with
          | some produced => producedField produced field
          | none => producedField (← structResult entry name (ordered.map (·.2)) key) field

omit [Double D] in
def structFunctionArgs (entry : FuncEntry D) (ctx : Context D) : List (Ast D) → Except Error (List D)
  | [] => .ok []
  | .identifier name :: rest => do
    let fields ← ((entry.structFields.getD []).take entry.fieldsPerArg).mapM fun field =>
      match ctx.getField name field with
      | some v => requireNumber v "Struct function arguments must be scalar doubles"
      | none => .error ⟨.unknownIdentifier, "Unknown struct field"⟩
    return fields ++ (← structFunctionArgs entry ctx rest)
  | _ :: _ => .error ⟨.syntaxError, "Struct argument must be an identifier"⟩

omit [Double D] in
def registryCallTyped (reg : Registry D) (name : String) (args : List (Value D)) : Except Error (Value D) :=
  let unknown : Error := ⟨.unknownFunction, unknownMessage "Unknown function" name⟩
  match reg.find name with
  | none => .error unknown
  | some entry =>
    if entry.syncFunc.isNone && entry.valueFunc.isNone && entry.typedFunc.isNone then .error unknown
    else if args.length < entry.minArgs || entry.maxArgs < args.length then
      .error ⟨.wrongArity, "Wrong number of arguments"⟩
    else if (args.zip (entry.argTypes.getD [])).any fun (v, t) => v.type ≠ t then
      .error ⟨.typeMismatch, "Function argument type mismatch"⟩
    else
      match entry.typedFunc, entry.valueFunc, entry.syncFunc with
      | some f, _, _ | none, some f, _ => .ok (f args)
      | none, none, some f =>
        if maxCallArgs < args.length then .error ⟨.wrongArity, "Too many function arguments"⟩
        else do
          let values ← args.mapM (requireNumber · "Function arguments must be numbers")
          return .number (f values)
      | none, none, none => .error unknown

/-- The function-call case of `cxpr_eval_node_uncached`; `acts` evaluate the arguments. -/
def evalCall (reg : Registry D) (deeper : Ast D → EvalM D (Value D)) (name : String) (args : List (Ast D))
    (argNames : List (Option String)) (acts : List (EvalM D (Value D))) : EvalM D (Value D) := do
  let ast := Ast.call name args argNames
  let ctx ← get
  match reg.find name with
  | none => evalError .unknownFunction (unknownMessage "Unknown function" name)
  | some entry =>
    match entry.astFuncHandler <|> entry.astFunc with
    | some f => f ast ctx
    | none =>
      let pureProducer := entry.structProducer.isSome && entry.syncFunc.isNone && entry.valueFunc.isNone
      if pureProducer && !Ast.callUsesNamedArgs args.length argNames then
        let key := constantKey name args fun _ => none
        match key.bind ctx.getCachedStruct with
        | some cached => return .struct cached
        | none => return .struct (← structResult entry name acts key)
      else
        let ordered ← (callBindArgs entry (args.zip acts) argNames : Except Error _)
        let orderedActs := ordered.map (·.2)
        if let some producer := entry.modelProducer then producer ast ctx
        else if entry.definedBody.isSome || !entry.definedReturnFields.isEmpty then
          evalDefinedFunction deeper entry ordered
        else if pureProducer then return .struct (← structResult entry name orderedActs none)
        else
          match entry.structFields, entry.structProducer, entry.syncFunc with
          | some _, none, some f =>
            if args.length ≠ entry.structArgc then evalError .wrongArity "Wrong number of struct arguments"
            else return .number (f ((← (structFunctionArgs entry ctx (ordered.map (·.1)) : Except Error _)).take 32))
          | _, _, _ =>
            match name == "if", orderedActs with
            | true, [c, t, e] => evalTernary "if() condition must be bool" c t e
            | _, _ =>
              if args.length < entry.minArgs || entry.maxArgs < args.length then
                evalError .wrongArity "Wrong number of arguments"
              else
                match entry.native, orderedActs with
                | .nullary v, [] => return .number v
                | .unary f, [a] => return .number (f (← scalarArg a))
                | .binary f, [a, b] =>
                  let x ← scalarArg a
                  return .number (f x (← scalarArg b))
                | .ternary f, [a, b, c] =>
                  let x ← scalarArg a
                  let y ← scalarArg b
                  return .number (f x y (← scalarArg c))
                | _, _ =>
                  if maxCallArgs < args.length then evalError .wrongArity "Too many function arguments"
                  else registryCallTyped reg name (← evalAll orderedActs)

/-- The memo around a call node (`cxpr_eval_node`). -/
def memoized (reg : Registry D) (name : String) (ast : Ast D) (act : EvalM D (Value D)) : EvalM D (Value D) := do
  if (reg.find name).any memoable then
    match ← memoGet ast with
    | some v => return v
    | none =>
      let v ← act
      memoSet ast v
      return v
  else act

omit [Double D] in
def evalRecordFields : List (String × EvalM D (Value D)) → EvalM D (List (String × Value D))
  | [] => return []
  | (name, act) :: rest => do
    let v ← act
    modify fun ctx => ctx.update (·.setValue name v)
    return (name, v) :: (← evalRecordFields rest)

mutual

def evalNode (reg : Registry D) (deeper : Ast D → EvalM D (Value D)) : Ast D → EvalM D (Value D)
  | .number v => return .number v
  | .int64 v => return .int64 v
  | .bool v => return .bool v
  | .string v => return .string v
  | .array es => return .array (← evalAll (evalActs reg deeper es))
  | .record names values =>
    return .struct (← inOverlay {} (evalRecordFields (names.zip (evalActs reg deeper values))))
  | .identifier name => do
    match (← get).getTyped name with
    | some v => return v
    | none => evalError .unknownIdentifier (unknownMessage "Unknown identifier" name)
  | .param name => do
    match (← get).getParamTyped name with
    | some v => return v
    | none => evalError .unknownIdentifier (unknownParameterMessage name)
  | .fieldAccess object field => evalFieldAccess reg object field
  | .fieldOf (.call name args argNames) field =>
    match reg.find name with
    | some entry =>
      if entry.structProducer.isSome || entry.modelProducer.isSome || !entry.definedReturnFields.isEmpty then
        evalProducerAccess reg deeper name args argNames field (evalActs reg deeper args)
      else fieldOfValue field (memoized reg name (.call name args argNames)
        (evalCall reg deeper name args argNames (evalActs reg deeper args)))
    | none => fieldOfValue field (evalCall reg deeper name args argNames (evalActs reg deeper args))
  | .fieldOf base field => fieldOfValue field (evalNode reg deeper base)
  | .chainAccess path => do evalChainAccess (← get) path
  | .index target i => evalIndex reg target i (evalNode reg deeper target) (evalNode reg deeper i)
  | .binary op l r => evalBinary op (evalNode reg deeper l) (evalNode reg deeper r)
  | .unary op a => do unaryValue op (← evalNode reg deeper a)
  | .call name args argNames =>
    memoized reg name (.call name args argNames)
      (evalCall reg deeper name args argNames (evalActs reg deeper args))
  | .producerAccess name args argNames field => do
    match (reg.find name).bind (·.astFuncHandler) with
    | some handler => handler (.producerAccess name args argNames field) (← get)
    | none => evalProducerAccess reg deeper name args argNames field (evalActs reg deeper args)
  | .ternary c t e =>
    evalTernary "Ternary condition must be bool" (evalNode reg deeper c) (evalNode reg deeper t)
      (evalNode reg deeper e)
where
  /-- The field of an evaluated base. -/
  fieldOfValue (field : String) (base : EvalM D (Value D)) : EvalM D (Value D) := do
    match ← base with
    | .struct s => structFieldValue s field
    | _ => evalError .typeMismatch "Field access requires a struct base"

def evalActs (reg : Registry D) (deeper : Ast D → EvalM D (Value D)) : List (Ast D) → List (EvalM D (Value D))
  | [] => []
  | a :: as => evalNode reg deeper a :: evalActs reg deeper as

end

/-- `cxpr_eval_node` with the given number of nested calls of defined functions. The C stack bounds them too. -/
def evalDepth (reg : Registry D) : Nat → Ast D → EvalM D (Value D)
  | 0 => fun _ => evalError .stackOverflow "Too many nested calls"
  | depth + 1 => evalNode reg (evalDepth reg depth)

def evalAstValue (reg : Registry D) (depth : Nat) (ast : Ast D) : EvalM D (Value D) := fun ctx => do
  let (v, ctx) ← evalDepth reg depth ast (memoEnter ctx)
  return (v, memoLeave ctx)

def evalAst (reg : Registry D) (depth : Nat) (ast : Ast D) : EvalM D (Value D) := fun ctx => do
  let _ ← typecheck ast reg
  evalAstValue reg depth ast ctx

end
end Cxpr.Eval
