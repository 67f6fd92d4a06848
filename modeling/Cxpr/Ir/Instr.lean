import Cxpr.Registry

/-! The intermediate representation (`src/ir/internal.h`): instructions with the operands their opcode reads. -/

namespace Cxpr.Ir

/-- `ADD`, `SUB`, `MUL`, `DIV`, `MOD` and `POW`. -/
inductive Arith where
  | add | sub | mul | div | mod | pow
  deriving DecidableEq, Repr

/-- `CMP_EQ` to `CMP_GTE`. -/
inductive Cmp where
  | eq | neq | lt | lte | gt | gte
  deriving DecidableEq, Repr

/-- `NEG`, `SIGN`, `SQRT`, `ABS`, `FLOOR`, `CEIL` and `ROUND`. -/
inductive Intrinsic where
  | neg | sign | sqrt | abs | floor | ceil | round
  deriving DecidableEq, Repr

/-- `cxpr_ir_instr`. `payload` is the AST a call or load came from; `key` is the constant cache key of a producer
    call. -/
inductive Instr (D : Type) where
  | pushConst (value : D)
  | pushInt64 (value : Int64)
  | pushBool (value : D)
  | pushString (name : String)
  | buildArray (count : Nat)
  | loadLocal (index : Nat)
  | loadLocalSquare (index : Nat)
  | loadVar (name : String) (payload : Option (Ast D))
  | loadVarSquare (name : String)
  | loadParam (name : String)
  | loadParamSquare (name : String)
  | loadField (name : String) (payload : Option (Ast D))
  | loadFieldSquare (name : String)
  | loadNamedField (name auxName : String)
  | loadChain (name : String) (payload : Ast D)
  | arith (op : Arith)
  | square
  | cmp (op : Cmp)
  | not
  | intrinsic (op : Intrinsic)
  | clamp
  | callProducer (func : FuncEntry D) (name : String) (argc : Nat)
  | callProducerConst (func : FuncEntry D) (key : String) (argc : Nat)
  | callProducerConstField (func : FuncEntry D) (key field : String) (args : List D)
  | getField (name : String)
  | callUnary (func : FuncEntry D) (f : D → D) (payload : Ast D)
  | callBinary (func : FuncEntry D) (f : D → D → D) (payload : Ast D)
  | callTernary (func : FuncEntry D) (f : D → D → D → D) (payload : Ast D)
  | callFunc (func : FuncEntry D) (payload : Ast D) (argc : Nat)
  | callDefined (func : FuncEntry D) (payload : Ast D) (argc : Nat)
  | callAst (ast : Ast D)
  | jump (target : Nat)
  | jumpIfFalse (target : Nat)
  | jumpIfTrue (target : Nat)
  | lookbackPush (offset : Nat)
  | lookbackPop
  | lookbackResolve (target : Ast D) (offset : Nat)
  | storeLocal (index : Nat)
  | ret
  | index

/-- The instruction array of a `cxpr_ir_program`. -/
abbrev Program (D : Type) := List (Instr D)

abbrev Compile (D : Type) := Program D → Except Error (Program D)

section
variable {D : Type}

def emit (instr : Instr D) : Compile D := fun program => .ok (program ++ [instr])

def nextIndex (program : Program D) : Nat := program.length

def Instr.setTarget (target : Nat) : Instr D → Instr D
  | .jump _ => .jump target
  | .jumpIfFalse _ => .jumpIfFalse target
  | .jumpIfTrue _ => .jumpIfTrue target
  | instr => instr

/-- `cxpr_ir_patch_target`. -/
def patchTarget (program : Program D) (at_ target : Nat) : Program D :=
  program.modify at_ (Instr.setTarget target)

def compileAll : List (Compile D) → Compile D
  | [], program => .ok program
  | c :: cs, program => do compileAll cs (← c program)

end
end Cxpr.Ir
