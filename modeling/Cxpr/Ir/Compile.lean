import Cxpr.Ir.Constant

/-! AST-to-IR lowering (`src/ir/compile/node.c`, `src/ir/compile/shared.c`). The compiler is one recursion over the
    node, the substitution frames and the inlining depth: a substituted argument is compiled in the frames behind the
    one that binds it, and an inlined body with one level of inlining less. Here the recursion over the node is
    `compileNode`, which is given how to compile an identifier and, while the depth limit allows it, a body. -/

namespace Cxpr.Ir

/-- `cxpr_ir_subst_frame`: parameter names with the argument nodes of the call; the tail of a list of frames is the
    parent chain. -/
structure SubstFrame (D : Type) where
  names : List String
  args : List (Ast D)

def SubstFrame.lookup {D : Type} (frame : SubstFrame D) (name : String) : Option (Ast D) :=
  ((frame.names.zip frame.args).find? (·.1 == name)).map (·.2)

def localIndex (name : String) (localNames : List String) : Option Nat := localNames.findIdx? (· == name)

def isSpecialBuiltinName (name : String) : Bool :=
  ["if", "sqrt", "abs", "pow", "sign", "floor", "ceil", "round", "clamp"].contains name

def inlineDepthLimit : Nat := 8

section
variable {D : Type}

/-- `cxpr_ir_unknown_function_message`. -/
def unknownFunction (name : String) : Error :=
  ⟨.unknownFunction, if name == "" then "Unknown function" else "Unknown function '" ++ name ++ "'"⟩

def indexHasLiteralArrayBase : Ast D → Bool
  | .index target _ => indexHasLiteralArrayBase target
  | .array _ => true
  | _ => false

def simpleLookbackTarget : Ast D → Bool
  | .identifier _ | .fieldAccess _ _ | .fieldOf _ _ | .chainAccess _ | .producerAccess _ _ _ _ => true
  | _ => false

def baseHasAstHandler (reg : Registry D) : Ast D → Bool
  | .call name _ _ => (reg.find name).any fun entry => entry.astFuncHandler.isSome
  | _ => false

/-- `cxpr_ir_emit_leaf_load`. -/
def emitLeafSquare (localNames : List String) : List (SubstFrame D) → Ast D → Option (Instr D)
  | [], .identifier name =>
    match localIndex name localNames with
    | some i => some (.loadLocalSquare i)
    | none => some (.loadVarSquare name)
  | frame :: parent, .identifier name =>
    match frame.lookup name with
    | some mapped => emitLeafSquare localNames parent mapped
    | none => emitLeafSquare localNames parent (.identifier name)
  | _, .param name => some (.loadParamSquare name)
  | _, .fieldAccess object field => some (.loadFieldSquare (Ast.fullKey [object, field]))
  | _, _ => none

mutual

def astContainsStringLiteral : Ast D → Bool
  | .string _ => true
  | .binary _ l r => astContainsStringLiteral l || astContainsStringLiteral r
  | .unary _ a => astContainsStringLiteral a
  | .call _ args _ | .producerAccess _ args _ _ => anyContainsStringLiteral args
  | .index t i => astContainsStringLiteral t || astContainsStringLiteral i
  | .ternary c t e => astContainsStringLiteral c || astContainsStringLiteral t || astContainsStringLiteral e
  | _ => false

def anyContainsStringLiteral : List (Ast D) → Bool
  | [] => false
  | a :: as => astContainsStringLiteral a || anyContainsStringLiteral as

end

def argNeedsCatchorPassthrough : Ast D → Bool
  | .identifier _ | .fieldAccess _ _ | .fieldOf _ _ | .chainAccess _ | .call _ _ _ | .producerAccess _ _ _ _
  | .index _ _ => true
  | .binary _ l r => argNeedsCatchorPassthrough l || argNeedsCatchorPassthrough r
  | .unary _ a => argNeedsCatchorPassthrough a
  | .ternary c t e =>
    argNeedsCatchorPassthrough c || argNeedsCatchorPassthrough t || argNeedsCatchorPassthrough e
  | _ => false

mutual

/-- `cxpr_ir_defined_body_needs_ast_eval`. -/
def nodeNeedsAstEval (reg : Registry D) (body : Ast D → Bool) : Ast D → Bool
  | .call name args _ =>
    (match reg.find name with
      | some entry =>
        entry.astFunc.isSome || entry.astFuncHandler.isSome ||
          (match entry.definedBody with | some b => body b | none => false)
      | none => false) || anyNeedsAstEval reg body args
  | .producerAccess _ args _ _ => anyNeedsAstEval reg body args
  | .index t i => nodeNeedsAstEval reg body t || nodeNeedsAstEval reg body i
  | .binary _ l r => nodeNeedsAstEval reg body l || nodeNeedsAstEval reg body r
  | .unary _ a => nodeNeedsAstEval reg body a
  | .ternary c t e =>
    nodeNeedsAstEval reg body c || nodeNeedsAstEval reg body t || nodeNeedsAstEval reg body e
  | .fieldOf b _ => nodeNeedsAstEval reg body b
  | .array es => anyNeedsAstEval reg body es
  | .record _ vs => anyNeedsAstEval reg body vs
  | _ => false

def anyNeedsAstEval (reg : Registry D) (body : Ast D → Bool) : List (Ast D) → Bool
  | [] => false
  | a :: as => nodeNeedsAstEval reg body a || anyNeedsAstEval reg body as

end

/-- `cxpr_ir_defined_body_needs_ast_eval`. -/
def definedBodyNeedsAstEval (reg : Registry D) : Nat → Ast D → Bool
  | 0, _ => false
  | k + 1, ast => nodeNeedsAstEval reg (definedBodyNeedsAstEval reg k) ast

/-- `cxpr_ir_defined_call_can_inline`. -/
def definedCallCanInline (entry : FuncEntry D) (body : Ast D) (argc : Nat) (reg : Registry D) : Bool :=
  entry.definedReturnFields.isEmpty && entry.definedParamNames.length == argc &&
  !definedBodyNeedsAstEval reg (inlineDepthLimit + 1) body &&
  entry.definedParamFields.all List.isEmpty

/-- `cxpr_ir_emit_defined_direct_field_call`. -/
def definedDirectFieldCall (entry : FuncEntry D) (args : List (Ast D)) : Option (Instr D) :=
  let direct (param field : String) : Option (Instr D) :=
    match entry.definedParamNames.findIdx? (· == param) with
    | none => none
    | some i =>
      match args[i]? with
      | some (.identifier name) =>
        if (Ast.fullKey [name, field]).utf8ByteSize < 256 then some (.loadNamedField name field) else none
      | _ => none
  match entry.definedBody with
  | some (.fieldAccess object field) => direct object field
  | some (.chainAccess [root, field]) => direct root field
  | _ => none

end

section
variable {D : Type} [Double D]

/-- The instruction that pushes a folded constant, for the types the compiler folds. -/
def constantInstr : Option (Value D) → Option (Instr D)
  | some (.number d) => some (.pushConst d)
  | some (.bool b) => some (.pushBool (Double.ofBool b))
  | some (.string s) => some (.pushString s)
  | _ => none

/-- The prologue of `cxpr_ir_compile_node`: a constant node is one push. -/
def folded (reg : Registry D) (ast : Ast D) (otherwise : Compile D) : Compile D :=
  match constantInstr (constantTypedValue ast reg) with
  | some instr => emit instr
  | none => otherwise

omit [Double D] in
def emitAfter (args : List (Compile D)) (instr : Instr D) : Compile D := fun program => do
  emit instr (← compileAll args program)

omit [Double D] in
def emitTernary (c t e : Compile D) : Compile D := fun program => do
  let program ← c program
  let falseJump := nextIndex program
  let program ← emit (.jumpIfFalse 0) program
  let program ← t program
  let endJump := nextIndex program
  let program ← emit (.jump 0) program
  let program := patchTarget program falseJump (nextIndex program)
  let program ← e program
  return patchTarget program endJump (nextIndex program)

def emitAnd (l r : Compile D) : Compile D := fun program => do
  let program ← l program
  let leftFalseJump := nextIndex program
  let program ← emit (.jumpIfFalse 0) program
  let program ← r program
  let rightFalseJump := nextIndex program
  let program ← emit (.jumpIfFalse 0) program
  let program ← emit (.pushBool Double.one) program
  let endJump := nextIndex program
  let program ← emit (.jump 0) program
  let program := patchTarget program leftFalseJump (nextIndex program)
  let program := patchTarget program rightFalseJump (nextIndex program)
  let program ← emit (.pushBool Double.zero) program
  return patchTarget program endJump (nextIndex program)

def emitOr (l r : Compile D) : Compile D := fun program => do
  let program ← l program
  let leftTrueJump := nextIndex program
  let program ← emit (.jumpIfTrue 0) program
  let program ← r program
  let rightFalseJump := nextIndex program
  let program ← emit (.jumpIfFalse 0) program
  let program ← emit (.pushBool Double.one) program
  let endJump := nextIndex program
  let program ← emit (.jump 0) program
  let program := patchTarget program leftTrueJump (nextIndex program)
  let program ← emit (.pushBool Double.one) program
  let skipFalseJump := nextIndex program
  let program ← emit (.jump 0) program
  let program := patchTarget program rightFalseJump (nextIndex program)
  let program ← emit (.pushBool Double.zero) program
  let program := patchTarget program endJump (nextIndex program)
  return patchTarget program skipFalseJump (nextIndex program)

def binaryInstr : BinaryOp → Option (Instr D)
  | .plus => some (.arith .add)
  | .minus => some (.arith .sub)
  | .star => some (.arith .mul)
  | .slash => some (.arith .div)
  | .percent => some (.arith .mod)
  | .power => some (.arith .pow)
  | .eq => some (.cmp .eq)
  | .neq => some (.cmp .neq)
  | .lt => some (.cmp .lt)
  | .lte => some (.cmp .lte)
  | .gt => some (.cmp .gt)
  | .gte => some (.cmp .gte)
  | .and | .or => none

/-- `cxpr_ir_build_constant_producer_key`. -/
def buildConstantProducerKey (name : String) (args : List (Ast D)) (reg : Registry D) :
    Option (String × List D) :=
  if maxCallArgs < args.length then none
  else (args.mapM (constantValue · reg)).map fun values =>
    (if values.isEmpty then name else name ++ "(" ++ ",".intercalate (values.map Double.hex) ++ ")", values)

/-- The builtins `cxpr_ir_compile_node` lowers to an instruction of their own, by name and arity. -/
def intrinsicInstr : String → Nat → Option (Instr D)
  | "sqrt", 1 => some (.intrinsic .sqrt)
  | "abs", 1 => some (.intrinsic .abs)
  | "pow", 2 => some (.arith .pow)
  | "sign", 1 => some (.intrinsic .sign)
  | "floor", 1 => some (.intrinsic .floor)
  | "ceil", 1 => some (.intrinsic .ceil)
  | "round", 1 => some (.intrinsic .round)
  | "clamp", 3 => some .clamp
  | _, _ => none

def nativeCallInstr (entry : FuncEntry D) (ast : Ast D) (argc : Nat) : Instr D :=
  match entry.native, argc with
  | .unary f, 1 => .callUnary entry f ast
  | .binary f, 2 => .callBinary entry f ast
  | .ternary f, 3 => .callTernary entry f ast
  | _, _ => .callFunc entry ast argc

/-- How a defined body is compiled one inlining level down; `none` at the depth limit. -/
abbrev InlineBody (D : Type) := Option (Ast D → List (SubstFrame D) → Compile D)

/-- The function-call case of `cxpr_ir_compile_node`; `acts` compile the arguments in the caller's frames. -/
def compileCall (reg : Registry D) (subst : List (SubstFrame D)) (inline : InlineBody D) (name : String)
    (args : List (Ast D)) (argNames : List (Option String)) (acts : List (Compile D)) : Compile D :=
  let ast := Ast.call name args argNames
  if Ast.callUsesNamedArgs args.length argNames then emit (.callAst ast)
  else
    match name == "if", acts with
    | true, [c, t, e] => emitTernary c t e
    | _, _ =>
      match reg.find name with
      | none =>
        if isSpecialBuiltinName name then emit (.callAst ast) else fun _ => .error (unknownFunction name)
      | some entry =>
        match intrinsicInstr name args.length with
        | some instr => emitAfter acts instr
        | none =>
          if entry.astFunc.isSome then emit (.callAst ast)
          else if (name == "min" || name == "max") && 1 ≤ args.length && args.length ≤ 8 then
            emitAfter acts (.callFunc entry ast args.length)
          else if entry.astFuncHandler.isSome &&
              (astContainsStringLiteral ast || args.any argNeedsCatchorPassthrough) then
            emit (.callAst ast)
          else if (entry.syncFunc.isSome || entry.valueFunc.isSome || entry.typedFunc.isSome) &&
              entry.structFields.isNone && entry.definedBody.isNone then
            emitAfter acts (nativeCallInstr entry ast args.length)
          else if entry.structProducer.isSome && entry.syncFunc.isNone then
            match buildConstantProducerKey name args reg with
            | some (key, _) => emitAfter acts (.callProducerConst entry key args.length)
            | none => emitAfter acts (.callProducer entry name args.length)
          else
            match definedDirectFieldCall entry args with
            | some instr => emit instr
            | none =>
              if !entry.definedReturnFields.isEmpty then emitAfter acts (.callDefined entry ast args.length)
              else
                match entry.definedBody with
                | some body =>
                  if definedCallCanInline entry body args.length reg then
                    match inline with
                    | some compileBody => compileBody body (⟨entry.definedParamNames, args⟩ :: subst)
                    | none => emitAfter acts (.callDefined entry ast args.length)
                  else emit (.callAst ast)
                | none => emit (.callAst ast)

/-- The producer-access case of `cxpr_ir_compile_node`. -/
def compileProducer (reg : Registry D) (name : String) (args : List (Ast D)) (argNames : List (Option String))
    (field : String) (acts : List (Compile D)) : Compile D := fun program =>
  let ast := Ast.producerAccess name args argNames field
  match reg.find name with
  | none => .error (unknownFunction name)
  | some entry =>
    if entry.astFuncHandler.isSome then emit (.callAst ast) program
    else if entry.structProducer.isNone && entry.modelProducer.isNone && entry.definedReturnFields.isEmpty then
      .error (unknownFunction name)
    else do
      let ordered ← callBindArgs entry (args.zip acts) argNames
      if !entry.definedReturnFields.isEmpty && entry.modelProducer.isNone then
        emit (.getField field) (← emitAfter (ordered.map (·.2)) (.callDefined entry ast args.length) program)
      else
        match buildConstantProducerKey name (ordered.map (·.1)) reg with
        | some (key, values) => emit (.callProducerConstField entry key field values) program
        | none =>
          emit (.getField field) (← emitAfter (ordered.map (·.2)) (.callProducer entry name args.length) program)

mutual

/-- `cxpr_ir_compile_node` in the frames `subst`. -/
def compileNode (reg : Registry D) (localNames : List String) (subst : List (SubstFrame D))
    (identifier : String → Compile D) (inline : InlineBody D) : Ast D → Compile D
  | .number v => folded reg (.number v) (emit (.pushConst v))
  | .int64 v => folded reg (.int64 v) (emit (.pushInt64 v))
  | .bool v => folded reg (.bool v) (emit (.pushBool (Double.ofBool v)))
  | .string v => folded reg (.string v) (emit (.pushString v))
  | .array es =>
    folded reg (.array es)
      (emitAfter (compileList reg localNames subst identifier inline es) (.buildArray es.length))
  | .record ns vs => folded reg (.record ns vs) (emit (.callAst (.record ns vs)))
  | .identifier name => folded reg (.identifier name) (identifier name)
  | .param name => folded reg (.param name) (emit (.loadParam name))
  | .fieldAccess object field =>
    folded reg (.fieldAccess object field)
      (emit (.loadField (Ast.fullKey [object, field]) (some (.fieldAccess object field))))
  | .fieldOf base field =>
    folded reg (.fieldOf base field)
      (if baseHasAstHandler reg base then emit (.callAst (.fieldOf base field))
      else emitAfter [compileNode reg localNames subst identifier inline base] (.getField field))
  | .chainAccess path =>
    folded reg (.chainAccess path) (emit (.loadChain (Ast.fullKey path) (.chainAccess path)))
  | .producerAccess name args argNames field =>
    folded reg (.producerAccess name args argNames field)
      (compileProducer reg name args argNames field (compileList reg localNames subst identifier inline args))
  | .index target i =>
    folded reg (.index target i)
      (if indexHasLiteralArrayBase target then
        emitAfter [compileNode reg localNames subst identifier inline target,
          compileNode reg localNames subst identifier inline i] .index
      else
        match lookbackLiteralOffset i with
        | some offset =>
          compileLookback reg localNames subst identifier inline target
            (compileNode reg localNames subst identifier inline target) offset
        | none => emit (.callAst (.index target i)))
  | .call name args argNames =>
    folded reg (.call name args argNames)
      (compileCall reg subst inline name args argNames (compileList reg localNames subst identifier inline args))
  | .binary .and l r =>
    folded reg (.binary .and l r)
      (match constantTypedValue l reg with
        | some (.bool false) => emit (.pushBool Double.zero)
        | some (.bool true) => compileNode reg localNames subst identifier inline r
        | _ => emitAnd (compileNode reg localNames subst identifier inline l)
            (compileNode reg localNames subst identifier inline r))
  | .binary .or l r =>
    folded reg (.binary .or l r)
      (match constantTypedValue l reg with
        | some (.bool true) => emit (.pushBool Double.one)
        | some (.bool false) => compileNode reg localNames subst identifier inline r
        | _ => emitOr (compileNode reg localNames subst identifier inline l)
            (compileNode reg localNames subst identifier inline r))
  | .binary op l r =>
    folded reg (.binary op l r)
      (if op == .star && astEqual l r then
        match emitLeafSquare localNames subst l with
        | some instr => emit instr
        | none => emitAfter [compileNode reg localNames subst identifier inline l] .square
      else
        match binaryInstr op with
        | some instr =>
          emitAfter [compileNode reg localNames subst identifier inline l,
            compileNode reg localNames subst identifier inline r] instr
        | none => fun _ =>
          .error ⟨.syntaxError, "IR v1 currently supports arithmetic and comparison binary operators"⟩)
  | .unary .not a =>
    folded reg (.unary .not a) (emitAfter [compileNode reg localNames subst identifier inline a] .not)
  | .unary .minus a =>
    folded reg (.unary .minus a)
      (emitAfter [compileNode reg localNames subst identifier inline a] (.intrinsic .neg))
  | .ternary c t e =>
    folded reg (.ternary c t e)
      (emitTernary (compileNode reg localNames subst identifier inline c)
        (compileNode reg localNames subst identifier inline t)
        (compileNode reg localNames subst identifier inline e))

/-- The lookback branch of an index node: literal offsets of nested indices are summed, `target` is what they lead to
    and `act` compiles it. -/
def compileLookback (reg : Registry D) (localNames : List String) (subst : List (SubstFrame D))
    (identifier : String → Compile D) (inline : InlineBody D) : Ast D → Compile D → Nat → Compile D
  | .index target i, _, offset =>
    match (lookbackLiteralOffset i).bind (lookbackAddUnsigned offset) with
    | some summed =>
      compileLookback reg localNames subst identifier inline target
        (compileNode reg localNames subst identifier inline target) summed
    | none => emit (.lookbackResolve (.index target i) offset)
  | target, act, offset =>
    if simpleLookbackTarget target then fun program => do
      let program ← emit (.lookbackPush offset) program
      emit .lookbackPop (← act program)
    else emit (.lookbackResolve target offset)

def compileList (reg : Registry D) (localNames : List String) (subst : List (SubstFrame D))
    (identifier : String → Compile D) (inline : InlineBody D) : List (Ast D) → List (Compile D)
  | [] => []
  | a :: as =>
    compileNode reg localNames subst identifier inline a ::
      compileList reg localNames subst identifier inline as

end

/-- The identifier case of `cxpr_ir_compile_node`: the argument of the nearest frame that binds the name, compiled in
    the frames behind it (`cxpr_ir_subst_lookup`), else a local, else a variable. -/
def compileIdentifier (reg : Registry D) (localNames : List String) (inline : InlineBody D) :
    List (SubstFrame D) → String → Compile D
  | [], name =>
    match localIndex name localNames with
    | some i => emit (.loadLocal i)
    | none => emit (.loadVar name (some (.identifier name)))
  | frame :: parent, name =>
    match frame.lookup name with
    | some mapped =>
      compileNode reg localNames parent (compileIdentifier reg localNames inline parent) inline mapped
    | none => compileIdentifier reg localNames inline parent name

/-- How bodies compile with `k` inlining levels left. -/
def inlineBody (reg : Registry D) (localNames : List String) : Nat → InlineBody D
  | 0 => none
  | k + 1 => some fun body subst =>
    compileNode reg localNames subst (compileIdentifier reg localNames (inlineBody reg localNames k) subst)
      (inlineBody reg localNames k) body

/-- `cxpr_ir_compile_with_locals`: the instructions, ended by a `RETURN`. -/
def compileWithLocals (ast : Ast D) (reg : Registry D) (localNames : List String) : Except Error (Program D) := do
  let inline := inlineBody reg localNames inlineDepthLimit
  emit .ret (← compileNode reg localNames [] (compileIdentifier reg localNames inline []) inline ast [])

def compile (ast : Ast D) (reg : Registry D) : Except Error (Program D) := compileWithLocals ast reg []

end
end Cxpr.Ir
