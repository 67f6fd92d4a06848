import Cxpr.Value

/-! Operators on values that are not plain numbers (`src/value_ops.c`): int64 arithmetic with overflow checks, the
    timestamp and duration algebra and field-wise struct arithmetic. Both evaluators call it when an operand of an
    arithmetic or ordering operator is no number. -/

namespace Cxpr

inductive ValOp where
  | add | sub | mul | div | lt | lte | gt | gte
  deriving DecidableEq, Repr

namespace ValueOps

/-- `none` is the return value 0 (not handled), `some` the values 1 and -1. -/
abbrev Handled (D : Type) := Option (Except Error (Value D))

variable {D : Type} [Double D]

omit [Double D] in
def typeError (message : String) : Handled D := some (.error ⟨.typeMismatch, message⟩)

omit [Double D] in
def divZero : Handled D := some (.error ⟨.divisionByZero, "Division by zero"⟩)

def numericBinaryOp (op : ValOp) (a b : D) : Handled D :=
  match op with
  | .add => some (.ok (.number (Double.add a b)))
  | .sub => some (.ok (.number (Double.sub a b)))
  | .mul => some (.ok (.number (Double.mul a b)))
  | .div => if Double.eq b Double.zero then divZero else some (.ok (.number (Double.div a b)))
  | .lt => some (.ok (.bool (Double.lt a b)))
  | .lte => some (.ok (.bool (Double.le a b)))
  | .gt => some (.ok (.bool (Double.gt a b)))
  | .gte => some (.ok (.bool (Double.ge a b)))

omit [Double D] in
def int64Checked (exact : Int) (overflow : String) : Handled D :=
  if exact < Int64.minValue.toInt || Int64.maxValue.toInt < exact then typeError overflow
  else some (.ok (.int64 (Int64.ofInt exact)))

omit [Double D] in
/-- The int64 case of `cxpr_value_binary_op_impl`. -/
def int64BinaryOp (op : ValOp) (a b : Int64) : Handled D :=
  match op with
  | .add => int64Checked (a.toInt + b.toInt) "int64 addition overflow"
  | .sub => int64Checked (a.toInt - b.toInt) "int64 subtraction overflow"
  | .mul => int64Checked (a.toInt * b.toInt) "int64 multiplication overflow"
  | .div =>
    if b == 0 then divZero else int64Checked (a.toInt.tdiv b.toInt) "int64 division overflow"
  | .lt => some (.ok (.bool (a < b)))
  | .lte => some (.ok (.bool (a ≤ b)))
  | .gt => some (.ok (.bool (b < a)))
  | .gte => some (.ok (.bool (b ≤ a)))

omit [Double D] in
def isTemporal : Value D → Bool
  | .timestamp _ | .duration _ => true
  | _ => false

/-- The temporal switch of `cxpr_value_binary_op`. -/
def temporalBinaryOp (op : ValOp) (a b : Value D) : Handled D :=
  match op with
  | .add =>
    match a, b with
    | .timestamp x, .duration y => some (.ok (.timestamp (x + y)))
    | .duration x, .timestamp y => some (.ok (.timestamp (x + y)))
    | .duration x, .duration y => some (.ok (.duration (x + y)))
    | _, _ => typeError "'+' on temporal values requires timestamp+duration or duration+duration"
  | .sub =>
    match a, b with
    | .timestamp x, .timestamp y => some (.ok (.duration (x - y)))
    | .timestamp x, .duration y => some (.ok (.timestamp (x - y)))
    | .duration x, .duration y => some (.ok (.duration (x - y)))
    | _, _ => typeError
        "'-' on temporal values requires timestamp-timestamp, timestamp-duration, or duration-duration"
  | .mul =>
    match a, b with
    | .duration x, .number y => some (.ok (.duration (Double.llround (Double.mul (Double.ofInt64 x) y))))
    | .number x, .duration y => some (.ok (.duration (Double.llround (Double.mul x (Double.ofInt64 y)))))
    | _, _ => typeError "'*' on temporal values requires duration*number"
  | .div =>
    match a, b with
    | .duration x, .number y =>
      if Double.eq y Double.zero then divZero
      else some (.ok (.duration (Double.llround (Double.div (Double.ofInt64 x) y))))
    | .duration x, .duration y =>
      if y == 0 then divZero else some (.ok (.number (Double.div (Double.ofInt64 x) (Double.ofInt64 y))))
    | _, _ => typeError "'/' on temporal values requires duration/number or duration/duration"
  | .lt | .lte | .gt | .gte =>
    match a, b with
    | .timestamp x, .timestamp y | .duration x, .duration y =>
      match op with
      | .lt => some (.ok (.bool (x < y)))
      | .lte => some (.ok (.bool (x ≤ y)))
      | .gt => some (.ok (.bool (y < x)))
      | _ => some (.ok (.bool (y ≤ x)))
    | _, _ => typeError "Comparison requires two timestamps or two durations"

/-- `cxpr_value_binary_op_impl` on two values that are no structs. A timestamp or duration goes through
    `cxpr_value_binary_op`, which rejects an int64 partner first. -/
def scalarBinaryOp (op : ValOp) (a b : Value D) : Handled D :=
  match a, b with
  | .int64 x, .int64 y => int64BinaryOp op x y
  | .number x, .number y => numericBinaryOp op x y
  | .int64 _, _ | _, .int64 _ =>
    if isTemporal a || isTemporal b then typeError "int64 arithmetic requires two int64 operands" else none
  | _, _ => if isTemporal a || isTemporal b then temporalBinaryOp op a b else none

omit [Double D] in
def isOrdering : ValOp → Bool
  | .lt | .lte | .gt | .gte => true
  | _ => false

omit [Double D] in
def isStructScalarOperand : Value D → Bool
  | .number _ | .int64 _ | .timestamp _ | .duration _ => true
  | _ => false

omit [Double D] in
def fieldResult : Handled D → Except Error (Value D)
  | some r => r
  | none => .error ⟨.typeMismatch, "Struct arithmetic requires numeric or compatible fields"⟩

mutual

/-- `cxpr_value_binary_op_impl`. -/
def binaryOpScalarLeft (op : ValOp) (a : Value D) : Value D → Handled D
  | .struct fields =>
    if isOrdering op then typeError "Struct comparison is not supported"
    else if !isStructScalarOperand a then typeError "Struct arithmetic requires scalar-compatible operands"
    else some ((scalarLeftFields op a fields).map .struct)
  | b => scalarBinaryOp op a b

def scalarLeftFields (op : ValOp) (a : Value D) : List (String × Value D) → Except Error (List (String × Value D))
  | [] => .ok []
  | (name, v) :: rest => do
    let r ← fieldResult (binaryOpScalarLeft op a v)
    return (name, r) :: (← scalarLeftFields op a rest)

end

mutual

def binaryOpImpl (op : ValOp) : Value D → Value D → Handled D
  | .struct fields, b =>
    if isOrdering op then typeError "Struct comparison is not supported"
    else
      match b with
      | .struct right =>
        some do
          let values ← structFields op fields right
          if right.length ≠ fields.length then
            .error ⟨.typeMismatch, "Struct arithmetic requires matching named fields"⟩
          else .ok (.struct values)
      | b =>
        if !isStructScalarOperand b then typeError "Struct arithmetic requires scalar-compatible operands"
        else some ((scalarRightFields op fields b).map .struct)
  | a, b => binaryOpScalarLeft op a b

def structFields (op : ValOp) (left right : List (String × Value D)) : Except Error (List (String × Value D)) :=
  match left with
  | [] => .ok []
  | (name, v) :: rest =>
    match right.find? (·.1 == name) with
    | none => .error ⟨.typeMismatch, "Struct arithmetic requires matching named fields"⟩
    | some (_, w) => do
      let r ← fieldResult (binaryOpImpl op v w)
      return (name, r) :: (← structFields op rest right)

def scalarRightFields (op : ValOp) (left : List (String × Value D)) (b : Value D) :
    Except Error (List (String × Value D)) :=
  match left with
  | [] => .ok []
  | (name, v) :: rest => do
    let r ← fieldResult (binaryOpImpl op v b)
    return (name, r) :: (← scalarRightFields op rest b)

end

end ValueOps

/-- `cxpr_value_binary_op`. Plain numbers, bools, strings, nulls and arrays are left to the caller. -/
def valueBinaryOp {D : Type} [Double D] (op : ValOp) (a b : Value D) : ValueOps.Handled D :=
  match a, b with
  | .int64 x, .int64 y => ValueOps.int64BinaryOp op x y
  | .int64 _, _ | _, .int64 _ => ValueOps.typeError "int64 arithmetic requires two int64 operands"
  | .struct _, _ | _, .struct _ => ValueOps.binaryOpImpl op a b
  | _, _ => if ValueOps.isTemporal a || ValueOps.isTemporal b then ValueOps.temporalBinaryOp op a b else none

end Cxpr
