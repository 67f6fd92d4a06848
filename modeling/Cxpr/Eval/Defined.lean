import Cxpr.Eval.Memo

/-! Calls of defined functions in the tree evaluator (`src/eval/calls.c`): argument binding, substitution of stable
    arguments into the body, and the overlay context in which a body runs otherwise. -/

namespace Cxpr.Eval
variable {D : Type}

/-- Runs a computation in a child context that is freed afterwards. Writes go to the context itself and never to a
    parent, so the caller's context is as before. -/
def inOverlay {α : Type} (tmp : Frame D) (act : EvalM D α) : EvalM D α := fun ctx => do
  let (a, _) ← act (tmp :: ctx)
  return (a, ctx)

/-- The error of a body, with the function it came from (`cxpr_eval_wrap_defined_function_error`). -/
def wrapDefinedError {α : Type} (name : String) (act : EvalM D α) : EvalM D α := fun ctx =>
  match act ctx with
  | .ok r => .ok r
  | .error e => .error ⟨e.code, "Function '" ++ name ++ "' eval failed: " ++ e.message⟩

def definedArgForName (entry : FuncEntry D) (orderedArgs : List (Ast D)) (name : String) : Option (Ast D) :=
  (entry.definedParamNames.findIdx? (· == name)).bind (orderedArgs[·]?)

def chainWithReplacedRoot (path : List String) (root : Ast D) : Ast D :=
  match root, path with
  | .identifier name, _ :: rest => .chainAccess (name :: rest)
  | root, [_, field] => .fieldOf root field
  | _, path => .chainAccess path

mutual

def substituteDefinedArgs (entry : FuncEntry D) (orderedArgs : List (Ast D)) : Ast D → Ast D
  | .identifier name => (definedArgForName entry orderedArgs name).getD (.identifier name)
  | .fieldAccess object field =>
    match definedArgForName entry orderedArgs object with
    | some (.identifier name) => .fieldAccess name field
    | some mapped => .fieldOf mapped field
    | none => .fieldAccess object field
  | .chainAccess path =>
    match path.head?.bind (definedArgForName entry orderedArgs) with
    | some mapped => chainWithReplacedRoot path mapped
    | none => .chainAccess path
  | .number v => .number v
  | .int64 v => .int64 v
  | .bool v => .bool v
  | .string v => .string v
  | .param name => .param name
  | .fieldOf base field => .fieldOf (substituteDefinedArgs entry orderedArgs base) field
  | .array es => .array (substituteAll entry orderedArgs es)
  | .record names values => .record names (substituteAll entry orderedArgs values)
  | .unary op a => .unary op (substituteDefinedArgs entry orderedArgs a)
  | .binary op l r =>
    .binary op (substituteDefinedArgs entry orderedArgs l) (substituteDefinedArgs entry orderedArgs r)
  | .call name args argNames => .call name (substituteAll entry orderedArgs args) argNames
  | .producerAccess name args argNames field =>
    .producerAccess name (substituteAll entry orderedArgs args) argNames field
  | .index t i => .index (substituteDefinedArgs entry orderedArgs t) (substituteDefinedArgs entry orderedArgs i)
  | .ternary c t e =>
    .ternary (substituteDefinedArgs entry orderedArgs c) (substituteDefinedArgs entry orderedArgs t)
      (substituteDefinedArgs entry orderedArgs e)

def substituteAll (entry : FuncEntry D) (orderedArgs : List (Ast D)) : List (Ast D) → List (Ast D)
  | [] => []
  | a :: as => substituteDefinedArgs entry orderedArgs a :: substituteAll entry orderedArgs as

end

def inlineArgIsStable : Ast D → Bool
  | .identifier _ | .param _ | .number _ | .bool _ | .string _ => true
  | _ => false

/-- `cxpr_eval_defined_call_can_inline_value_args`. -/
def canInlineValueArgs (entry : FuncEntry D) (orderedArgs : List (Ast D)) : Bool :=
  entry.definedReturnFields.isEmpty && entry.definedParamFields.all List.isEmpty &&
    orderedArgs.all inlineArgIsStable

def structOrCached (ctx : Context D) (name : String) : Option (List (String × Value D)) :=
  ctx.getStruct name <|> ctx.getCachedStruct name

/-- `cxpr_eval_defined_call_can_inline_struct_args`. -/
def canInlineStructArgs (entry : FuncEntry D) (orderedArgs : List (Ast D)) (ctx : Context D) : Bool :=
  entry.definedReturnFields.isEmpty &&
    (entry.definedParamFields.zip orderedArgs).all fun (fields, arg) =>
      fields.isEmpty ||
        match arg with
        | .identifier name => (structOrCached ctx name).isSome
        | _ => false

def bindArg (f : Frame D) (name : String) (value : Value D) : Frame D :=
  match value with
  | .number d => f.set name d
  | value => f.setValue name value

def bindArgs (names : List String) (values : List (Value D)) : Frame D :=
  (names.zip values).foldl (fun f (name, value) => bindArg f name value) {}

section
variable [Double D]

/-- `cxpr_eval_defined_overlay_direct_field`. -/
def overlayDirectField (entry : FuncEntry D) (orderedArgs : List (Ast D)) (ctx : Context D) : Option (Value D) :=
  let direct (param field : String) : Option (Value D) :=
    match definedArgForName entry orderedArgs param with
    | some (.identifier arg) =>
      ((structOrCached ctx arg).bind (structGetField · field)) <|>
        (if (Ast.fullKey [arg, field]).utf8ByteSize < 256 then
          (ctx.get (Ast.fullKey [arg, field])).map .number
        else none)
    | _ => none
  match entry.definedBody with
  | some (.fieldAccess object field) => direct object field
  | some (.chainAccess [root, field]) => direct root field
  | _ => none

/-- `cxpr_context_copy_prefixed_scalars`. -/
def copyPrefixedScalars (dst : Frame D) (srcName dstName : String) : Context D → Frame D × Bool
  | [] => (dst, false)
  | f :: parent =>
    let copied := f.vars.entries.filterMap fun entry =>
      let key := entry.1
      if (srcName ++ ".").isPrefixOf key || (srcName ++ "_").isPrefixOf key then
        let dstKey := Ast.fullKey [dstName, (key.drop (srcName.length + 1)).toString]
        if dstKey.utf8ByteSize < 256 then some (dstKey, entry.2) else none
      else none
    let dst := copied.foldl (fun d (key, v) => d.set key v) dst
    let (dst, more) := copyPrefixedScalars dst srcName dstName parent
    (dst, !copied.isEmpty || more)

def structArgField (ctx : Context D) (arg : Option String) (struct : Option (List (String × Value D)))
    (field : String) : Except Error D := do
  let value ← match struct, arg with
    | some s, _ =>
      match structGetField s field with
      | some v => .ok v
      | none => .error ⟨.unknownIdentifier, "Unknown struct field"⟩
    | none, some name =>
      match ctx.getField name field with
      | some v => .ok v
      | none =>
        match ctx.get (name ++ "." ++ field) <|> ctx.get (name ++ "_" ++ field) with
        | some d => .ok (.number d)
        | none => .error ⟨.unknownIdentifier, "Unknown struct field"⟩
    | none, none => .error ⟨.unknownIdentifier, "Unknown struct field"⟩
  match value with
  | .number d => .ok d
  | _ => .error ⟨.typeMismatch, "Struct function arguments must be scalar doubles"⟩

def bindFields (pname : String) (value : String → Except Error D) : List String → Frame D → Except Error (Frame D)
  | [], tmp => .ok tmp
  | field :: rest, tmp => do bindFields pname value rest (tmp.set (pname ++ "." ++ field) (← value field))

def bindStructArg (pname : String) (fields : List String) (arg : Ast D) (act : EvalM D (Value D))
    (tmp : Frame D) : EvalM D (Frame D) := do
  if fields.isEmpty then return bindArg tmp pname (← act)
  else
    let (name, struct) ← match arg with
      | .identifier name => pure (some name, none)
      | _ =>
        match ← act with
        | .struct s => pure (none, some s)
        | _ => evalError .typeMismatch "Struct argument must be a struct"
    let ctx ← get
    bindFields pname (structArgField ctx name struct) fields tmp

def bindStructArgs : List (String × List String × Ast D × EvalM D (Value D)) → Frame D → EvalM D (Frame D)
  | [], tmp => return tmp
  | (pname, fields, arg, act) :: rest, tmp => do
    bindStructArgs rest (← bindStructArg pname fields arg act tmp)

/-- One parameter in `cxpr_eval_defined_with_overlay`. -/
def bindOverlayArg (pname : String) (arg : Ast D) (act : EvalM D (Value D)) (tmp : Frame D) :
    EvalM D (Frame D) := do
  match arg with
  | .identifier name =>
    let ctx ← get
    match structOrCached ctx name, ctx.get name with
    | some s, _ => return tmp.setStruct pname s
    | none, some d => return tmp.set pname d
    | none, none =>
      match copyPrefixedScalars tmp name pname ctx with
      | (copied, true) => return copied
      | (_, false) => return bindArg tmp pname (← act)
  | _ => return bindArg tmp pname (← act)

def bindOverlayArgs : List (String × Ast D × EvalM D (Value D)) → Frame D → EvalM D (Frame D)
  | [], tmp => return tmp
  | (pname, arg, act) :: rest, tmp => do bindOverlayArgs rest (← bindOverlayArg pname arg act tmp)

/-- The fields of a record function, evaluated one after the other in the overlay. -/
def evalReturnFields (deeper : Ast D → EvalM D (Value D)) :
    List (String × Ast D) → EvalM D (List (String × Value D))
  | [] => return []
  | (name, body) :: rest => do
    let v ← deeper body
    return (name, v) :: (← evalReturnFields deeper rest)

def evalAll : List (EvalM D (Value D)) → EvalM D (List (Value D))
  | [] => return []
  | act :: acts => do
    let v ← act
    return v :: (← evalAll acts)

/-- `cxpr_eval_defined_function`, over the arguments in parameter order. -/
def evalDefinedFunction (deeper : Ast D → EvalM D (Value D)) (entry : FuncEntry D)
    (ordered : List (Ast D × EvalM D (Value D))) : EvalM D (Value D) := do
  let orderedArgs := ordered.map (·.1)
  let names := entry.definedParamNames
  if ordered.length ≠ names.length then evalError .wrongArity "Wrong number of arguments"
  else
    match entry.definedBody, entry.definedReturnFields with
    | none, [] => evalError .syntaxError "NULL AST node"
    | none, fields =>
      let values ← evalAll (ordered.map (·.2))
      return .struct (← inOverlay (bindArgs names values) (evalReturnFields deeper fields))
    | some body, fields =>
      if canInlineValueArgs entry orderedArgs then
        wrapDefinedError entry.name (deeper (substituteDefinedArgs entry orderedArgs body))
      else if !fields.isEmpty then
        let values ← evalAll (ordered.map (·.2))
        return .struct (← inOverlay (bindArgs names values) (evalReturnFields deeper fields))
      else if ordered.length ≤ maxCallArgs && entry.definedParamFields.all List.isEmpty then
        let ctx ← get
        -- an identifier without a scalar value may be a struct or a family of dotted variables
        if orderedArgs.any fun arg =>
            match arg with
            | .identifier name => (ctx.get name).isNone
            | _ => false then
          match overlayDirectField entry orderedArgs ctx with
          | some v => return v
          | none =>
            let tmp ← bindOverlayArgs (names.zip ordered) {}
            inOverlay tmp (wrapDefinedError entry.name (deeper body))
        else
          let values ← evalAll (ordered.map (·.2))
          inOverlay (bindArgs names values) (wrapDefinedError entry.name (deeper body))
      else
        let ctx ← get
        match overlayDirectField entry orderedArgs ctx with
        | some v => return v
        | none =>
          if canInlineStructArgs entry orderedArgs ctx then
            wrapDefinedError entry.name (deeper (substituteDefinedArgs entry orderedArgs body))
          else
            let tmp ← bindStructArgs
              (names.zip (entry.definedParamFields.zip ordered)) {}
            inOverlay tmp (wrapDefinedError entry.name (deeper body))

end
end Cxpr.Eval
