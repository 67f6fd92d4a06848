import Cxpr.Ir.Instr

/-! Compile-time facts about nodes (`src/ir/program.c`, `src/lookback.c`): constant folding, the structural
    comparison behind the square peephole and literal lookback offsets. -/

namespace Cxpr.Ir
variable {D : Type} [Double D]

def lookbackLiteralOffset : Ast D → Option Nat
  | .number raw =>
    -- the cast is to a 32-bit `unsigned`
    let offset := if Double.ge raw Double.zero then Double.toSize (Double.add raw Double.half) % 2 ^ 32 else 0
    if !Double.isfinite raw || Double.lt raw Double.zero ||
        Double.gt (Double.fabs (Double.sub raw (Double.ofNat offset))) Double.tolerance then none
    else some offset
  | _ => none

/-- `cxpr_lookback_add_unsigned`. -/
def lookbackAddUnsigned (base offset : Nat) : Option Nat :=
  if 2 ^ 32 - 1 - base < offset then none else some (base + offset)

/-! ### Constant folding -/

def sizeMax : Nat := 2 ^ 64 - 1

def constantIndex : Option (Value D) → Option Nat
  | some (.number d) =>
    if !Double.isfinite d || Double.lt d Double.zero || Double.ne (Double.floor d) d ||
        Double.gt d (Double.ofNat sizeMax) then none
    else some (Double.toSize d)
  | _ => none

/-- What folding knows about a node: its constant value, its elements if it is an array literal, and the elements of
    the array literal its index path selects (`cxpr_ir_constant_array_value_ast`). -/
inductive Folded (D : Type) where
  | mk (value : Option (Value D)) (literal elements : Option (List (Folded D)))

namespace Folded
omit [Double D]

def value : Folded D → Option (Value D)
  | .mk v _ _ => v

def literal : Folded D → Option (List (Folded D))
  | .mk _ l _ => l

def elements : Folded D → Option (List (Folded D))
  | .mk _ _ e => e

def scalar (v : Option (Value D)) : Folded D := .mk v none none

end Folded

/-- The unary cases of `cxpr_ir_constant_typed_value`. -/
def foldUnary : UnaryOp → Value D → Option (Value D)
  | .minus, .number d => some (.number (Double.neg d))
  | .not, .bool b => some (.bool !b)
  | _, _ => none

/-- The binary cases of `cxpr_ir_constant_typed_value`, on two constant operands. -/
def foldBinary : BinaryOp → Value D → Value D → Option (Value D)
  | .plus, .number a, .number b => some (.number (Double.add a b))
  | .minus, .number a, .number b => some (.number (Double.sub a b))
  | .star, .number a, .number b => some (.number (Double.mul a b))
  | .slash, .number a, .number b =>
    if Double.eq b Double.zero then none else some (.number (Double.div a b))
  | .percent, .number a, .number b =>
    if Double.eq b Double.zero then none else some (.number (Double.fmod a b))
  | .power, .number a, .number b =>
    if Double.isfinite (Double.pow a b) then some (.number (Double.pow a b)) else none
  | .eq, .number a, .number b => some (.bool (Double.eq a b))
  | .eq, .bool a, .bool b => some (.bool (a == b))
  | .eq, .string a, .string b => some (.bool (a == b))
  | .neq, .number a, .number b => some (.bool (Double.ne a b))
  | .neq, .bool a, .bool b => some (.bool (a != b))
  | .neq, .string a, .string b => some (.bool (a != b))
  | .lt, .number a, .number b => some (.bool (Double.lt a b))
  | .lte, .number a, .number b => some (.bool (Double.le a b))
  | .gt, .number a, .number b => some (.bool (Double.gt a b))
  | .gte, .number a, .number b => some (.bool (Double.ge a b))
  | .and, .bool a, .bool b => some (.bool (a && b))
  | .or, .bool a, .bool b => some (.bool (a || b))
  | _, _, _ => none

/-- A constant number, as `cxpr_ir_constant_value` wants it. -/
def constantNumber : Value D → Option D
  | .number d => some d
  | _ => none

/-- The function-call case of `cxpr_ir_constant_typed_value` for a plain scalar function. -/
def foldCall (reg : Registry D) (name : String) (args : List (Option (Value D))) : Option (Value D) :=
  match reg.find name with
  | none => none
  | some entry =>
    match entry.syncFunc with
    | none => none
    | some f =>
      if entry.valueFunc.isSome || entry.typedFunc.isSome || entry.astFunc.isSome ||
          entry.astFuncHandler.isSome || entry.structProducer.isSome || entry.structFields.isSome ||
          entry.definedBody.isSome || args.length < entry.minArgs || entry.maxArgs < args.length then none
      else do
        let values ← args.mapM fun a => a.bind constantNumber
        if Double.isfinite (f values) then some (.number (f values)) else none

mutual

/-- `cxpr_ir_constant_typed_value` and `cxpr_ir_constant_array_value_ast`, computed together over the tree. -/
def fold (reg : Registry D) : Ast D → Folded D
  | .number v => .scalar (some (.number v))
  | .int64 v => .scalar (some (.int64 v))
  | .bool v => .scalar (some (.bool v))
  | .string v => .scalar (some (.string v))
  | .array es => .mk none (some (foldList reg es)) (some (foldList reg es))
  | .index target i =>
    match (fold reg target).elements with
    | some es =>
      let selected := (constantIndex (fold reg i).value).bind (es[·]?)
      .mk (selected.bind fun e => match e.value with
        | some (.number d) => some (.number d)
        | some (.bool b) => some (.bool b)
        | _ => none) none (selected.bind Folded.literal)
    | none =>
      .scalar (if (lookbackLiteralOffset i).isSome then (fold reg target).value else none)
  | .unary op operand => .scalar ((fold reg operand).value.bind (foldUnary op))
  | .binary op left right =>
    .scalar ((fold reg left).value.bind fun l => (fold reg right).value.bind (foldBinary op l))
  | .call name args argNames =>
    let folded := (foldList reg args).map Folded.value
    .scalar <|
      if Ast.callUsesNamedArgs args.length argNames || maxCallArgs < args.length then none
      else
        match name == "if", folded with
        | true, [c, t, e] =>
          match c with
          | some (.bool b) => if b then t else e
          | _ => none
        | _, _ => foldCall reg name folded
  | .ternary c t e =>
    .scalar <|
      match (fold reg c).value with
      | some (.bool b) => if b then (fold reg t).value else (fold reg e).value
      | _ => none
  | .record _ _ | .identifier _ | .param _ | .fieldAccess _ _ | .fieldOf _ _ | .chainAccess _
  | .producerAccess _ _ _ _ => .scalar none

def foldList (reg : Registry D) : List (Ast D) → List (Folded D)
  | [] => []
  | a :: as => fold reg a :: foldList reg as

end

def constantTypedValue (ast : Ast D) (reg : Registry D) : Option (Value D) := (fold reg ast).value

def constantValue (ast : Ast D) (reg : Registry D) : Option D := (constantTypedValue ast reg).bind constantNumber

mutual

/-- `cxpr_ir_ast_equal` on two distinct nodes. Doubles are compared with `==`, and a node kind without a case is
    equal to nothing. -/
def astEqual : Ast D → Ast D → Bool
  | .number a, .number b => Double.eq a b
  | .int64 a, .int64 b => a == b
  | .bool a, .bool b => a == b
  | .identifier a, .identifier b => a == b
  | .param a, .param b => a == b
  | .fieldAccess o f, .fieldAccess o' f' => Ast.fullKey [o, f] == Ast.fullKey [o', f']
  | .fieldOf b f, .fieldOf b' f' => astEqual b b' && f == f'
  | .chainAccess p, .chainAccess p' => p == p'
  | .producerAccess n as ns f, .producerAccess n' as' ns' f' =>
    n == n' && f == f' && as.length == as'.length &&
      (namedArgs as ns).map (·.1) == (namedArgs as' ns').map (·.1) && astEqualList as as'
  | .unary op a, .unary op' a' => op == op' && astEqual a a'
  | .binary op l r, .binary op' l' r' => op == op' && astEqual l l' && astEqual r r'
  | .call n as ns, .call n' as' ns' =>
    n == n' && as.length == as'.length &&
      (namedArgs as ns).map (·.1) == (namedArgs as' ns').map (·.1) && astEqualList as as'
  | .index t i, .index t' i' => astEqual t t' && astEqual i i'
  | .ternary c t e, .ternary c' t' e' => astEqual c c' && astEqual t t' && astEqual e e'
  | _, _ => false

def astEqualList : List (Ast D) → List (Ast D) → Bool
  | [], [] => true
  | a :: as, b :: bs => astEqual a b && astEqualList as bs
  | _, _ => false

end

end Cxpr.Ir
