import Cxpr.Ir.Compile
import Cxpr.Lib.Worklist

/-! The choice of an executor at compile time: the inferred kind of the result (`src/ir/compile/infer.c`) and the two
    validators of fast programs (`src/ir/validate.c`). -/

namespace Cxpr.Ir
variable {D : Type}

inductive ResultKind where
  | unknown | double | bool
  deriving DecidableEq, Repr

def binaryKind (op : BinaryOp) (left right : ResultKind) : ResultKind :=
  match op with
  | .plus | .minus | .star | .slash | .percent | .power =>
    if left = .double ∧ right = .double then .double else .unknown
  | .lt | .lte | .gt | .gte => if left = .double ∧ right = .double then .bool else .unknown
  | .and | .or => if left = .bool ∧ right = .bool then .bool else .unknown
  | .eq | .neq => if left = right ∧ left ≠ .unknown then .bool else .unknown

def ternaryKind (condition left right : ResultKind) : ResultKind :=
  if condition = .bool ∧ left = right then left else .unknown

/-- `cxpr_ir_defined_is_scalar_only`. -/
def definedIsScalarOnly (entry : FuncEntry D) : Bool := entry.definedParamFields.all List.isEmpty

/-- `cxpr_ir_infer_fast_result_kind`. -/
def inferFastResultKind (reg : Registry D) : Nat → Ast D → ResultKind
  | 0, _ => .unknown
  | level + 1, ast =>
    match ast with
    | .number _ | .identifier _ | .param _ => .double
    | .bool _ => .bool
    | .unary op a =>
      match op, inferFastResultKind reg level a with
      | .minus, .double => .double
      | .not, .bool => .bool
      | _, _ => .unknown
    | .binary op l r => binaryKind op (inferFastResultKind reg level l) (inferFastResultKind reg level r)
    | .ternary c t e =>
      ternaryKind (inferFastResultKind reg level c) (inferFastResultKind reg level t)
        (inferFastResultKind reg level e)
    | .call name args _ =>
      match name == "if", args with
      | true, [c, t, e] =>
        ternaryKind (inferFastResultKind reg level c) (inferFastResultKind reg level t)
          (inferFastResultKind reg level e)
      | _, _ =>
        match reg.find name with
        | none => .unknown
        | some entry =>
          if entry.astFunc.isSome || entry.modelProducer.isSome ||
              (entry.structFields.isSome && entry.structProducer.isNone) ||
              (entry.structProducer.isSome && entry.syncFunc.isNone) || entry.typedFunc.isSome ||
              !args.all (fun a => inferFastResultKind reg level a = .double) then .unknown
          else if entry.syncFunc.isSome && entry.valueFunc.isNone && entry.definedBody.isNone then .double
          else
            match entry.valueFunc.isSome, entry.returnType, entry.definedBody with
            | true, some .bool, _ => .bool
            | true, some .number, _ => .double
            | true, some _, _ => .unknown
            | _, _, some body =>
              if definedIsScalarOnly entry then inferFastResultKind reg level body else .unknown
            | _, _, none => .unknown
    | .int64 _ | .string _ | .array _ | .record _ _ | .fieldAccess _ _ | .fieldOf _ _ | .chainAccess _
    | .producerAccess _ _ _ _ | .index _ _ => .unknown

/-- The levels below `CXPR_IR_INFER_DEPTH_LIMIT` and at it. -/
def inferLevels : Nat := 33

def stackCapacity : Nat := 64

def flow : Instr D → Nat → List Nat
  | .ret, _ => []
  | .jump t, _ => [t]
  | .jumpIfFalse t, ip | .jumpIfTrue t, ip => [t, ip + 1]
  | _, ip => [ip + 1]

/-- `cxpr_ir_scalar_stack_effect`. -/
def scalarStackEffect : Instr D → Option (Nat × Nat)
  | .pushConst _ | .pushBool _ | .loadLocal _ | .loadLocalSquare _ | .loadVar _ _ | .loadVarSquare _
  | .loadParam _ | .loadParamSquare _ => some (0, 1)
  | .arith _ | .cmp _ | .callBinary _ _ _ => some (2, 1)
  | .clamp | .callTernary _ _ _ => some (3, 1)
  | .square | .not | .intrinsic _ | .callUnary _ _ _ | .getField _ => some (1, 1)
  | .callProducerConstField _ _ _ args => if 32 < args.length then none else some (0, 1)
  | .callFunc _ _ n | .callDefined _ _ n => if 32 < n then none else some (n, 1)
  | .jumpIfFalse _ | .jumpIfTrue _ => some (1, 0)
  | .jump _ => some (0, 0)
  | .ret => some (1, 0)
  | _ => none

/-- One instruction of `cxpr_ir_validate_scalar_fast_program` on the depth of the stack. -/
def scalarDepthEffect (instr : Instr D) (depth : Nat) : Option Nat :=
  match scalarStackEffect instr with
  | none => none
  | some (pops, pushes) =>
    if depth < pops || stackCapacity < depth - pops + pushes then none
    else
      match instr with
      | .ret => if depth = 1 then some 0 else none
      | _ => some (depth - pops + pushes)

def validateScalarFastProgram (program : Program D) : Bool :=
  program.length ≤ 256 && Worklist.accepts ⟨scalarDepthEffect, flow⟩ program 0

/-- `cxpr_ir_bool_fast_stack_effect`. -/
def boolFastStackEffect (instr : Instr D) (state : Nat × Nat) : Option (Nat × Nat) :=
  let (numbers, bools) := state
  match instr with
  | .pushConst _ | .loadLocal _ | .loadLocalSquare _ | .loadVar _ _ | .loadVarSquare _ | .loadParam _
  | .loadParamSquare _ => some (numbers + 1, bools)
  | .pushBool _ => some (numbers, bools + 1)
  | .arith _ | .callBinary _ _ _ => if numbers < 2 then none else some (numbers - 1, bools)
  | .cmp _ => if numbers < 2 then none else some (numbers - 2, bools + 1)
  | .square | .intrinsic _ | .callUnary _ _ _ => if numbers < 1 then none else some (numbers, bools)
  | .not => if bools < 1 then none else some (numbers, bools)
  | .clamp | .callTernary _ _ _ => if numbers < 3 then none else some (numbers - 2, bools)
  | .callFunc func _ n =>
    if 32 < n || numbers < n then none
    else if func.valueFunc.isSome && func.returnType = some .bool then some (numbers - n, bools + 1)
    else if func.typedFunc.isNone then some (numbers - n + 1, bools)
    else none
  | .callDefined func _ n =>
    if 32 < n || numbers < n then none
    else
      match func.returnType with
      | some .bool => some (numbers - n, bools + 1)
      | some .number => some (numbers - n + 1, bools)
      | _ => none
  | .jumpIfFalse _ | .jumpIfTrue _ => if bools < 1 then none else some (numbers, bools - 1)
  | .jump _ => some (numbers, bools)
  | .ret => if numbers = 0 ∧ bools = 1 then some (0, 0) else none
  | _ => none

/-- One instruction of `cxpr_ir_validate_bool_fast_program`. -/
def boolDepthEffect (instr : Instr D) (state : Nat × Nat) : Option (Nat × Nat) :=
  match boolFastStackEffect instr state with
  | none => none
  | some (numbers, bools) =>
    if stackCapacity < numbers || stackCapacity < bools then none else some (numbers, bools)

theorem boolDepthEffect_eq_some {instr : Instr D} {state after : Nat × Nat} (h : boolDepthEffect instr state = some after) :
    boolFastStackEffect instr state = some after ∧ after.1 ≤ stackCapacity ∧ after.2 ≤ stackCapacity := by
  unfold boolDepthEffect at h
  cases heffect : boolFastStackEffect instr state with
  | none =>
    rw [heffect] at h
    cases h
  | some effect =>
    rw [heffect] at h
    simp only at h
    split at h
    · cases h
    · rename_i hroom
      cases h
      simpa [Nat.not_lt] using hroom

/-- `cxpr_ir_validate_bool_fast_program`. The work list never fills its 256 places: a position enters it once, and
    the one being visited has left it. -/
def validateBoolFastProgram (program : Program D) : Bool :=
  program.length ≤ 256 && Worklist.accepts ⟨boolDepthEffect, flow⟩ program (0, 0)

section
variable [Double D]

/-- `cxpr_ir_program` after `cxpr_ir_compile_with_locals`: the code and its `fast_result_kind`. -/
structure CompiledIr (D : Type) where
  code : Program D
  fastResultKind : ResultKind

def validatedKind (inferred : ResultKind) (code : Program D) : ResultKind :=
  match inferred with
  | .bool => if validateBoolFastProgram code then .bool else .unknown
  | .double => if validateScalarFastProgram code then .double else .unknown
  | .unknown => .unknown

/-- The whole of `cxpr_ir_compile_with_locals`. -/
def compileProgram (ast : Ast D) (reg : Registry D) (localNames : List String) : Except Error (CompiledIr D) := do
  let code ← compileWithLocals ast reg localNames
  return ⟨code, validatedKind (inferFastResultKind reg inferLevels ast) code⟩

end
end Cxpr.Ir
