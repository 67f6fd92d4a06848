import Cxpr.Ir.Typed

/-! The C backend for compiled expressions (`src/ir/codegen.c`): every instruction becomes the statements of its template
    under a label of its own, every argument binding a parameter of the function. -/

namespace Cxpr.Ir.Codegen

inductive ArgKind where
  | var | param | slot
deriving DecidableEq, Repr

/-- `cxpr_c_program_arg`. Both names may be `NULL`. -/
structure ProgramArg where
  kind : ArgKind
  name : Option String
  cName : Option String := none
  localIndex : Nat := 0
deriving DecidableEq, Repr

def safeChar (c : Char) : List Char := if c.isAlphanum || c == '_' then [c] else List.replicate c.utf8Size '_'

def safeName (lead : String) (name : Option String) (index : Nat) : String :=
  let src := name.getD ""
  let out := lead.toList ++ (if src == "" then (toString index).toList else src.toList.flatMap safeChar)
  match out with
  | [] => "cx_"
  | c :: _ => if c.isDigit then "cx_" ++ String.ofList out else String.ofList out

/-- `cxpr_ir_c_arg_prefix`. -/
def ArgKind.lead : ArgKind → String
  | .param => "p_"
  | .slot => "l_"
  | .var => ""

def argName (arg : ProgramArg) (ordinal : Nat) : String :=
  if arg.cName.getD "" ≠ "" then safeName "" arg.cName ordinal else safeName arg.kind.lead arg.name arg.localIndex

def argNames (args : List ProgramArg) : List String := args.zipIdx.map fun (arg, i) => argName arg i

/-- `cxpr_ir_c_find_arg`. -/
def findArg (args : List ProgramArg) (kind : ArgKind) (name : Option String) (localIndex : Nat) :
    Option (ProgramArg × Nat) :=
  args.zipIdx.find? fun (arg, _) =>
    arg.kind == kind && (if kind = .slot then arg.localIndex == localIndex else name.isSome && arg.name == name)

/-! ### Statements -/

inductive CFunc where
  | sqrt | fabs | floor | ceil | round | fmod | pow | fmin | fmax
deriving DecidableEq, Repr

def CFunc.name : CFunc → String
  | .sqrt => "sqrt"
  | .fabs => "fabs"
  | .floor => "floor"
  | .ceil => "ceil"
  | .round => "round"
  | .fmod => "fmod"
  | .pow => "pow"
  | .fmin => "fmin"
  | .fmax => "fmax"

inductive COp where
  | add | sub | mul | div
deriving DecidableEq, Repr

def COp.symbol : COp → String
  | .add => "+"
  | .sub => "-"
  | .mul => "*"
  | .div => "/"

/-- The comparison operators of `cxpr_ir_c_binary_op`. -/
def cmpSymbol : Cmp → String
  | .eq => "=="
  | .neq => "!="
  | .lt => "<"
  | .lte => "<="
  | .gt => ">"
  | .gte => ">="

inductive Stmt where
  | pushConst (text : String)
  | pushBool (value : Bool)
  | pushArg (name : String)
  | pushLocal (index : Nat)
  | square
  | arith (op : COp)
  | compare (op : Cmp)
  | not
  | neg
  | sign
  | callUnary (fn : CFunc)
  | callBinary (fn : CFunc)
  | callFold (fn : CFunc) (argc : Nat)
  | clamp
  | jump (target : Nat)
  | jumpIfZero (target : Nat)
  | jumpIfNonzero (target : Nat)
  | storeLocal (index : Nat)
  | ret
deriving DecidableEq, Repr

def popTwo : String := "    \x7b double _cx_b = _cx_s[--_cx_sp]; double _cx_a = _cx_s[--_cx_sp]; "

def boolText (value : Bool) : String := if value then "1.0" else "0.0"

def Stmt.text : Stmt → String
  | .pushConst text => "    _cx_s[_cx_sp++] = " ++ text ++ ";\n"
  | .pushBool value => "    _cx_s[_cx_sp++] = " ++ boolText value ++ ";\n"
  | .pushArg name => "    _cx_s[_cx_sp++] = " ++ name ++ ";\n"
  | .pushLocal index => "    _cx_s[_cx_sp++] = _cx_l[" ++ toString index ++ "];\n"
  | .square => "    _cx_s[_cx_sp - 1u] = _cx_s[_cx_sp - 1u] * _cx_s[_cx_sp - 1u];\n"
  | .arith op => popTwo ++ "_cx_s[_cx_sp++] = _cx_a " ++ op.symbol ++ " _cx_b; \x7d\n"
  | .compare op => popTwo ++ "_cx_s[_cx_sp++] = (_cx_a " ++ cmpSymbol op ++ " _cx_b) ? 1.0 : 0.0; \x7d\n"
  | .not => "    _cx_s[_cx_sp - 1u] = (_cx_s[_cx_sp - 1u] == 0.0) ? 1.0 : 0.0;\n"
  | .neg => "    _cx_s[_cx_sp - 1u] = -_cx_s[_cx_sp - 1u];\n"
  | .sign => "    _cx_s[_cx_sp - 1u] = (_cx_s[_cx_sp - 1u] > 0.0) - (_cx_s[_cx_sp - 1u] < 0.0);\n"
  | .callUnary fn => "    _cx_s[_cx_sp - 1u] = " ++ fn.name ++ "(_cx_s[_cx_sp - 1u]);\n"
  | .callBinary fn => popTwo ++ "_cx_s[_cx_sp++] = " ++ fn.name ++ "(_cx_a, _cx_b); \x7d\n"
  | .callFold fn argc =>
    "    \x7b double _cx_acc = _cx_s[_cx_sp - " ++ toString argc ++ "u];\n" ++
      String.join ((List.range (argc - 1)).map fun i =>
        "      _cx_acc = " ++ fn.name ++ "(_cx_acc, _cx_s[_cx_sp - " ++ toString (argc - (i + 1)) ++ "u]);\n") ++
      "      _cx_sp -= " ++ toString argc ++ "u; _cx_s[_cx_sp++] = _cx_acc; \x7d\n"
  | .clamp =>
    "    \x7b double _cx_max = _cx_s[--_cx_sp]; double _cx_min = _cx_s[--_cx_sp]; double _cx_v = _cx_s[--_cx_sp]; " ++
      "if (_cx_v < _cx_min) _cx_v = _cx_min; if (_cx_v > _cx_max) _cx_v = _cx_max; _cx_s[_cx_sp++] = _cx_v; \x7d\n"
  | .jump target => "    goto L" ++ toString target ++ ";\n"
  | .jumpIfZero target => "    if (_cx_s[--_cx_sp] == 0.0) goto L" ++ toString target ++ ";\n"
  | .jumpIfNonzero target => "    if (_cx_s[--_cx_sp] != 0.0) goto L" ++ toString target ++ ";\n"
  | .storeLocal index => "    _cx_l[" ++ toString index ++ "] = _cx_s[--_cx_sp];\n"
  | .ret => "    return _cx_s[--_cx_sp];\n"

inductive ArrayStmt where
  | pushConst (text : String)
  | pushBool (value : Bool)
  | pushArg (name : String)
  | buildArray (count : Nat)
  | index
  | arith (op : COp)
  | compare (op : Cmp)
  | neg
  | not
  | ret
deriving DecidableEq, Repr

def pushScalarText (text : String) : String :=
  "    _cx_s[_cx_sp++] = (_cx_value)\x7b0u, " ++ text ++ ", 0u, 0u\x7d;\n"

def binaryText (symbol : String) : String :=
  "    \x7b const double _cx_b = _cx_s[--_cx_sp].d; const double _cx_a = _cx_s[--_cx_sp].d; " ++
    "_cx_s[_cx_sp++] = (_cx_value)\x7b0u, (double)(_cx_a " ++ symbol ++ " _cx_b), 0u, 0u\x7d; \x7d\n"

def indexText : String :=
  "    \x7b _cx_value _cx_i = _cx_s[--_cx_sp]; _cx_value _cx_a = _cx_s[--_cx_sp]; " ++
    "if (_cx_i.kind != 0u || !isfinite(_cx_i.d) || _cx_i.d < 0.0 || trunc(_cx_i.d) != _cx_i.d || " ++
    "_cx_i.d > (double)SIZE_MAX || _cx_a.kind != 1u"

def ArrayStmt.text (checked : Bool) : ArrayStmt → String
  | .pushConst text => pushScalarText text
  | .pushBool value => pushScalarText (boolText value)
  | .pushArg name => pushScalarText name
  | .buildArray count =>
    "    \x7b const size_t _cx_n = " ++ toString count ++ "u; const size_t _cx_start = _cx_ep; " ++
      "for (size_t _cx_i = 0u; _cx_i < _cx_n; ++_cx_i) _cx_e[_cx_ep++] = _cx_s[_cx_sp - _cx_n + _cx_i]; " ++
      "_cx_sp -= _cx_n; _cx_s[_cx_sp++] = (_cx_value)\x7b1u, 0.0, _cx_start, _cx_n\x7d; \x7d\n"
  | .index =>
    indexText ++
      (if checked then
        ") return (cxpr_c_checked_result)\x7bNAN, 1u\x7d; if ((size_t)_cx_i.d >= _cx_a.count) " ++
          "return (cxpr_c_checked_result)\x7bNAN, 2u\x7d; "
      else " || (size_t)_cx_i.d >= _cx_a.count) return NAN; ") ++
      "_cx_s[_cx_sp++] = _cx_e[_cx_a.start + (size_t)_cx_i.d]; \x7d\n"
  | .arith op => binaryText op.symbol
  | .compare op => binaryText (cmpSymbol op)
  | .neg => "    _cx_s[_cx_sp - 1u].d = -_cx_s[_cx_sp - 1u].d;\n"
  | .not => "    _cx_s[_cx_sp - 1u].d = (_cx_s[_cx_sp - 1u].d == 0.0) ? 1.0 : 0.0;\n"
  | .ret =>
    "    \x7b const _cx_value _cx_r = _cx_s[--_cx_sp]; return _cx_r.kind == 0u ? " ++
      (if checked then "(cxpr_c_checked_result)\x7b_cx_r.d, 0u\x7d : (cxpr_c_checked_result)\x7bNAN, 3u\x7d; \x7d\n"
      else "_cx_r.d : NAN; \x7d\n")

structure Signature where
  qualifiers : String := ""
  returnType : String := "double"
  name : String
  params : List String

/-- A scalar function: its stack, its locals and the statements under each label. -/
structure ScalarFunction where
  signature : Signature
  stackSize : Nat
  localSlots : Nat
  body : List (List Stmt)

/-- An array-capable function: the size of its stack and of its arena, and the statement under each label. -/
structure ArrayFunction where
  signature : Signature
  checked : Bool
  size : Nat
  body : List ArrayStmt

inductive CFunction where
  | scalar (fn : ScalarFunction)
  | array (fn : ArrayFunction)

def CFunction.params : CFunction → List String
  | .scalar fn => fn.signature.params
  | .array fn => fn.signature.params

/-- The line of a function before its body (`cxpr_ir_c_emit_args` for the parameters). -/
def Signature.text (s : Signature) : String :=
  (if s.qualifiers == "" then "" else s.qualifiers ++ " ") ++ s.returnType ++ " " ++ s.name ++ "(" ++
    (if s.params.isEmpty then "void" else ", ".intercalate (s.params.map ("double " ++ ·))) ++ ") \x7b\n"

def labelled (texts : List String) : String :=
  String.join (texts.zipIdx.map fun (text, i) => "L" ++ toString i ++ ":\n" ++ text)

def ScalarFunction.text (fn : ScalarFunction) : String :=
  fn.signature.text ++ "    double _cx_s[" ++ toString fn.stackSize ++ "];\n    unsigned _cx_sp = 0u;\n" ++
    (if 0 < fn.localSlots then "    double _cx_l[" ++ toString fn.localSlots ++ "] = \x7b0\x7d;\n" else "") ++
    labelled (fn.body.map fun stmts => String.join (stmts.map Stmt.text)) ++ "\x7d\n"

def checkedResultText : String :=
  "#ifndef CXPR_C_CHECKED_RESULT_DEFINED\n#define CXPR_C_CHECKED_RESULT_DEFINED 1\n" ++
    "typedef struct cxpr_c_checked_result \x7b double value; unsigned status; \x7d cxpr_c_checked_result;\n#endif\n"

def ArrayFunction.text (fn : ArrayFunction) : String :=
  (if fn.checked then checkedResultText else "") ++ fn.signature.text ++
    "    typedef struct \x7b unsigned kind; double d; size_t start; size_t count; \x7d _cx_value;\n" ++
    "    _cx_value _cx_s[" ++ toString fn.size ++ "];\n    _cx_value _cx_e[" ++ toString fn.size ++ "];\n" ++
    "    size_t _cx_sp = 0u, _cx_ep = 0u;\n" ++ labelled (fn.body.map (ArrayStmt.text fn.checked)) ++ "\x7d\n"

def CFunction.text : CFunction → String
  | .scalar fn => fn.text
  | .array fn => fn.text

/-! ### Emission -/

section
variable {D : Type}

def missingBinding : Error := ⟨.unknownIdentifier, "C backend missing explicit argument binding"⟩

/-- `cxpr_ir_c_emit_load_arg`. -/
def loadArg (args : List ProgramArg) (kind : ArgKind) (name : String) : Except Error String :=
  match findArg args kind (some name) 0 with
  | some (arg, i) => .ok (argName arg i)
  | none => .error missingBinding

def emitLoadLocal (args : List ProgramArg) (index : Nat) : Stmt :=
  match findArg args .slot none index with
  | some (arg, i) => .pushArg (argName arg i)
  | none => .pushLocal index

def localSlotCount (args : List ProgramArg) (code : Program D) : Nat :=
  code.foldl (fun count instr =>
    match instr with
    | .storeLocal i => max count (i + 1)
    | .loadLocal i | .loadLocalSquare i => if (findArg args .slot none i).isSome then count else max count (i + 1)
    | _ => count) 0

def opcode : Instr D → Nat
  | .pushConst _ => 0
  | .pushInt64 _ => 1
  | .pushBool _ => 2
  | .pushString _ => 3
  | .buildArray _ => 4
  | .loadLocal _ => 5
  | .loadLocalSquare _ => 6
  | .loadVar _ _ => 7
  | .loadVarSquare _ => 8
  | .loadParam _ => 9
  | .loadParamSquare _ => 10
  | .loadField _ _ => 11
  | .loadFieldSquare _ => 12
  | .loadNamedField _ _ => 13
  | .loadChain _ _ => 14
  | .arith .add => 15
  | .arith .sub => 16
  | .arith .mul => 17
  | .square => 18
  | .arith .div => 19
  | .arith .mod => 20
  | .cmp .eq => 21
  | .cmp .neq => 22
  | .cmp .lt => 23
  | .cmp .lte => 24
  | .cmp .gt => 25
  | .cmp .gte => 26
  | .not => 27
  | .intrinsic .neg => 28
  | .intrinsic .sign => 29
  | .intrinsic .sqrt => 30
  | .intrinsic .abs => 31
  | .intrinsic .floor => 32
  | .intrinsic .ceil => 33
  | .intrinsic .round => 34
  | .arith .pow => 35
  | .clamp => 36
  | .callProducer _ _ _ => 37
  | .callProducerConst _ _ _ => 38
  | .callProducerConstField _ _ _ _ => 39
  | .getField _ => 40
  | .callUnary _ _ _ => 41
  | .callBinary _ _ _ => 42
  | .callTernary _ _ _ => 43
  | .callFunc _ _ _ => 44
  | .callDefined _ _ _ => 45
  | .callAst _ => 46
  | .jump _ => 47
  | .jumpIfFalse _ => 48
  | .jumpIfTrue _ => 49
  | .lookbackPush _ => 50
  | .lookbackPop => 51
  | .lookbackResolve _ _ => 52
  | .storeLocal _ => 53
  | .ret => 54
  | .index => 55

/-- `cxpr_ir_c_unary_math`. -/
def intrinsicStmt : Intrinsic → Stmt
  | .neg => .neg
  | .sign => .sign
  | .sqrt => .callUnary .sqrt
  | .abs => .callUnary .fabs
  | .floor => .callUnary .floor
  | .ceil => .callUnary .ceil
  | .round => .callUnary .round

def arithStmt : Arith → Stmt
  | .add => .arith .add
  | .sub => .arith .sub
  | .mul => .arith .mul
  | .div => .arith .div
  | .mod => .callBinary .fmod
  | .pow => .callBinary .pow

def nativeUnary : String → Option CFunc
  | "abs" => some .fabs
  | "sqrt" => some .sqrt
  | "floor" => some .floor
  | "ceil" => some .ceil
  | "round" => some .round
  | _ => none

def nativeBinary : String → Option CFunc
  | "min" => some .fmin
  | "max" => some .fmax
  | "pow" => some .pow
  | _ => none

def nativeFold : String → Option CFunc
  | "min" => some .fmin
  | "max" => some .fmax
  | _ => none

def unsupportedAst : Ast D → Error
  | .call name _ _ => ⟨.syntaxError, "Unsupported AST call for C backend: " ++ name⟩
  | _ => ⟨.syntaxError, "Unsupported AST node for C backend"⟩

variable [Double D]

/-- One turn of the loop of `cxpr_expr_compiled_to_c_function`. -/
def emitInstr (args : List ProgramArg) (instr : Instr D) : Except Error (List Stmt) :=
  match instr with
  | .pushConst v => .ok [.pushConst (Double.formatG 17 v)]
  | .pushBool v => .ok [.pushBool (Double.ne v Double.zero)]
  | .loadVar name _ => do return [.pushArg (← loadArg args .var name)]
  | .loadParam name => do return [.pushArg (← loadArg args .param name)]
  | .loadLocal i => .ok [emitLoadLocal args i]
  | .loadVarSquare name => do return [.pushArg (← loadArg args .var name), .square]
  | .loadParamSquare name => do return [.pushArg (← loadArg args .param name), .square]
  | .loadLocalSquare i => .ok [emitLoadLocal args i, .square]
  | .arith op => .ok [arithStmt op]
  | .cmp op => .ok [.compare op]
  | .square => .ok [.square]
  | .not => .ok [.not]
  | .intrinsic op => .ok [intrinsicStmt op]
  | .clamp => .ok [.clamp]
  | .callUnary func _ _ =>
    match nativeUnary func.name with
    | some fn => .ok [.callUnary fn]
    | none => .error ⟨.unknownFunction, "Unsupported native unary call in C backend"⟩
  | .callBinary func _ _ =>
    match nativeBinary func.name with
    | some fn => .ok [.callBinary fn]
    | none => .error ⟨.unknownFunction, "Unsupported native binary call in C backend"⟩
  | .callFunc func _ n =>
    match nativeFold func.name, n with
    | some fn, n + 1 => .ok [.callFold fn (n + 1)]
    | _, _ => .error ⟨.unknownFunction, "Unsupported native variadic call in C backend"⟩
  | .jump t => .ok [.jump t]
  | .jumpIfFalse t => .ok [.jumpIfZero t]
  | .jumpIfTrue t => .ok [.jumpIfNonzero t]
  | .storeLocal i => .ok [.storeLocal i]
  | .callAst ast => .error (unsupportedAst ast)
  | .ret => .ok [.ret]
  | instr => .error ⟨.syntaxError, "Unsupported IR opcode for C backend: " ++ toString (opcode instr)⟩

def unsupportedArrayOpcode : Error := ⟨.syntaxError, "Unsupported IR opcode in array-capable C backend"⟩

/-- One turn of the loop of `cxpr_ir_c_emit_array_function`. -/
def emitArrayInstr (args : List ProgramArg) (instr : Instr D) : Except Error ArrayStmt :=
  match instr with
  | .pushConst v => .ok (.pushConst (Double.formatG 17 v))
  | .pushBool v => .ok (.pushBool (Double.ne v Double.zero))
  | .loadVar name _ => do return .pushArg (← loadArg args .var name)
  | .loadParam name => do return .pushArg (← loadArg args .param name)
  | .buildArray n => .ok (.buildArray n)
  | .index => .ok .index
  | .arith .add => .ok (.arith .add)
  | .arith .sub => .ok (.arith .sub)
  | .arith .mul => .ok (.arith .mul)
  | .arith .div => .ok (.arith .div)
  | .cmp op => .ok (.compare op)
  | .intrinsic .neg => .ok .neg
  | .not => .ok .not
  | .ret => .ok .ret
  | _ => .error unsupportedArrayOpcode

omit [Double D] in
def hasArrayOps (code : Program D) : Bool :=
  code.any fun instr => match instr with | .buildArray _ | .index => true | _ => false

def emitArrayFunction (code : Program D) (qualifiers returnType name : String) (args : List ProgramArg) (checked : Bool) :
    Except Error ArrayFunction := do
  let returnType := if checked then "cxpr_c_checked_result" else returnType
  let body ← code.mapM (emitArrayInstr args)
  return ⟨⟨qualifiers, returnType, safeName "" (some name) 0, argNames args⟩, checked, code.length + 1, body⟩

def exprCompiledToCFunction (code : Program D) (qualifiers returnType name : String) (args : List ProgramArg) :
    Except Error CFunction :=
  let returnType := if returnType == "" then "double" else returnType
  if hasArrayOps code then do
    return .array (← emitArrayFunction code qualifiers returnType name args false)
  else do
    let body ← code.mapM (emitInstr args)
    return .scalar ⟨⟨qualifiers, returnType, safeName "" (some name) 0, argNames args⟩, code.length + 1,
      localSlotCount args code, body⟩

def exprCompiledToCCheckedFunction (code : Program D) (qualifiers name : String) (args : List ProgramArg) :
    Except Error CFunction :=
  if !hasArrayOps code then .error ⟨.syntaxError, "Checked C backend currently requires array/index IR"⟩
  else do return .array (← emitArrayFunction code qualifiers "double" name args true)

end
end Cxpr.Ir.Codegen
