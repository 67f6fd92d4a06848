import Cxpr.Printer
import Cxpr.Registry

/-! The shared typecheck pass (`src/typecheck.c`). Identifiers, parameters and most accesses have no static type. -/

namespace Cxpr
namespace Typecheck
variable {D : Type}

/-- `cxpr_typecheck_static_type`. -/
abbrev StaticType := Option ValueType

def typeName : StaticType → String
  | none => "unknown"
  | some .number => "number"
  | some .bool => "bool"
  | some .struct => "struct"
  | some .string => "string"
  | some .null => "null"
  | some .timestamp => "timestamp"
  | some .duration => "duration"
  | some .array => "array"
  | some .int64 => "int64"

def isNumeric : StaticType → Bool
  | none | some .number | some .int64 => true
  | _ => false

def isStructArithmeticOperand : StaticType → Bool
  | none | some .number | some .int64 | some .struct => true
  | _ => false

def isBool : StaticType → Bool
  | none | some .bool => true
  | _ => false

inductive Shape (S : Type) where
  | other
  | array (elements : List S)
  | record (fieldNames : List String) (fields : List S)

/-- What the pass finds out about a node: its type, and the literal that the node is, or that
    `cxpr_typecheck_resolve_static_index_value` leads to. -/
inductive Static where
  | mk (type : Except Error StaticType) (literal resolved : Shape Static)

namespace Static

def type : Static → Except Error StaticType
  | .mk t _ _ => t

def literal : Static → Shape Static
  | .mk _ l _ => l

def resolved : Static → Shape Static
  | .mk _ _ r => r

def scalar (type : Except Error StaticType) : Static := .mk type .other .other

end Static

def recordShapesMatch : Ast D → Ast D → Bool
  | .record left _, .record right _ => left.length == right.length && left.all right.contains
  | _, _ => true

def isScalarLiteral : Ast D → Bool
  | .number _ | .bool _ | .string _ | .array _ => true
  | _ => false

section
variable [Double D]

/-- `cxpr_typecheck_error`. -/
def typeError {α : Type} (op expected role : String) (node : Ast D) (actual : StaticType) : Except Error α :=
  .error ⟨.typeMismatch, "type error: '" ++ op ++ "' requires " ++ expected ++ ", but " ++ role ++ " '" ++
    node.toText ++ "' has type " ++ typeName actual⟩

def join (a b : StaticType) (node : Ast D) : Except Error StaticType :=
  if a = b then .ok a
  else
    match a, b with
    | none, b => .ok b
    | a, none => .ok a
    | _, b => typeError "?:" "branches with matching types" "ternary branch" node b

def literalElement {α : Type} (elements : List α) : Ast D → Option α
  | .number i =>
    if !Double.isfinite i || Double.lt i Double.zero || Double.ne (Double.floor i) i ||
        Double.ge i (Double.ofNat elements.length) then none
    else elements[Double.toSize i]?
  | _ => none

/-- `cxpr_typecheck_infer_binary`. -/
def inferBinary (op : BinaryOp) (left right : Ast D) (lt rt : StaticType) : Except Error StaticType :=
  let require (ok : StaticType → Bool) (expected : String) : Except Error Unit :=
    if !ok lt then typeError op.text expected "left operand" left lt
    else if !ok rt then typeError op.text expected "right operand" right rt
    else .ok ()
  match op with
  | .plus | .minus | .star | .slash => do
    require isStructArithmeticOperand "number or struct operands"
    if !recordShapesMatch left right then
      throw ⟨.typeMismatch, "type error: '" ++ op.text ++ "' requires matching struct fields"⟩
    if lt = some .struct || rt = some .struct then return some .struct
    if lt = some .int64 && rt = some .int64 then return some .int64
    if lt ≠ none && rt ≠ none && lt ≠ rt then
      typeError op.text "matching numeric types" "right operand" right rt
    else return some (if lt = some .int64 || rt = some .int64 then .int64 else .number)
  | .percent | .power => do
    require isNumeric "number operands"
    return some .number
  | .lt | .lte | .gt | .gte => do
    require isNumeric "number operands"
    return some .bool
  | .eq | .neq =>
    if lt ≠ none && rt ≠ none && lt ≠ rt then
      typeError op.text "matching operand types" "right operand" right rt
    else return some .bool
  | .and | .or => do
    require isBool "bool operands"
    return some .bool

def elementType (types : List (Except Error StaticType)) : Except Error StaticType :=
  let rec go (seen : StaticType) : List (Except Error StaticType) → Except Error StaticType
    | [] => .ok seen
    | .error e :: _ => .error e
    | .ok none :: rest => go seen rest
    | .ok current :: rest => if seen = none ∨ seen = current then go current rest else .ok none
  go none types

/-- The argument check of `cxpr_typecheck_infer_call`. -/
def checkArg (entry : Option (FuncEntry D)) (name : String) (argNames : List (Option String)) (i : Nat)
    (arg : Ast D) (type : StaticType) : Except Error Unit :=
  if (name == "any" || name == "all") && !isBool type then typeError name "bool argument" "argument" arg type
  else
    match entry with
    | none => .ok ()
    | some entry =>
      let expectedIndex :=
        match argNames[i]? with
        | some (some argName) => (entry.entryParamNames.findIdx? (· == argName)).getD i
        | _ => i
      match entry.argTypes.bind (·[expectedIndex]?) with
      | none => .ok ()
      | some expected =>
        if type ≠ none && type ≠ some expected then
          typeError name (typeName (some expected)) "argument" arg type
        else .ok ()

def inferArrayElement (elements : List Static) (index : Ast D) : Except Error StaticType :=
  match literalElement elements index with
  | some element => element.type
  | none => elementType (elements.map Static.type)

/-- The field-access case of `cxpr_typecheck_infer`. -/
def inferField (base : Ast D) (static : Static) (field : String) : Except Error StaticType := do
  let baseType ← static.type
  match static.resolved with
  | .record names fields =>
    match ((names.zip fields).find? (·.1 == field)).map (·.2) with
    | some f => f.type
    | none => throw ⟨.typeMismatch, "type error: record has no field '" ++ field ++ "'"⟩
  | _ => if isScalarLiteral base then typeError "." "record operand" "base" base baseType else return none

def inferCall (reg : Registry D) (name : String) (args : List (Ast D)) (argNames : List (Option String))
    (types : List (Except Error StaticType)) : Except Error StaticType :=
  match name == "if", args, types with
  | true, [c, _, e], [condType, trueType, falseType] => do
    let condType ← condType
    if !isBool condType && !isNumeric condType then
      typeError name "bool or number condition" "condition" c condType
    else join (← trueType) (← falseType) e
  | _, _, _ => do
    let entry := reg.find name
    (args.zip types).zipIdx.forM fun ((arg, type), i) => do checkArg entry name argNames i arg (← type)
    return entry.bind (·.returnType)

/-- The index case of `cxpr_typecheck_infer`. -/
def inferIndex (reg : Registry D) (target index : Ast D) (targetStatic : Static)
    (indexType : Except Error StaticType) : Except Error StaticType := do
  let indexType ← indexType
  if !isNumeric indexType then typeError "[]" "number index" "index expression" index indexType
  else
    match ← reg.selectIndexCapability target with
    | some capability => return some capability.resultType
    | none =>
      match targetStatic.resolved with
      | .array es => inferArrayElement es index
      | _ =>
        let _ ← targetStatic.type
        return none

mutual

/-- `cxpr_typecheck_infer`, with the literal behind each node. -/
def infer (reg : Registry D) : Ast D → Static
  | .number _ => .scalar (.ok (some .number))
  | .int64 _ => .scalar (.ok (some .int64))
  | .bool _ => .scalar (.ok (some .bool))
  | .string _ => .scalar (.ok (some .string))
  | .array es => .mk (.ok (some .array)) (.array (inferList reg es)) (.array (inferList reg es))
  | .record names values =>
    let fields := inferList reg values
    .mk (do let _ ← fields.mapM Static.type; return some .struct) (.record names fields) (.record names fields)
  | .identifier _ | .param _ | .fieldAccess _ _ | .chainAccess _ | .producerAccess _ _ _ _ => .scalar (.ok none)
  | .fieldOf base field => .scalar (inferField base (infer reg base) field)
  | .binary op l r => .scalar do
    let lt ← (infer reg l).type
    let rt ← (infer reg r).type
    inferBinary op l r lt rt
  | .unary op a => .scalar do
    let type ← (infer reg a).type
    match op with
    | .minus =>
      if isNumeric type then return some .number else typeError "-" "number operand" "operand" a type
    | .not => if isBool type then return some .bool else typeError "not" "bool operand" "operand" a type
  | .call name args argNames => .scalar (inferCall reg name args argNames ((inferList reg args).map Static.type))
  | .index target i =>
    let static := infer reg target
    .mk (inferIndex reg target i static (infer reg i).type) .other <|
      match static.resolved with
      | .array es => ((literalElement es i).map Static.literal).getD .other
      | _ => .other
  | .ternary c t e => .scalar do
    let condType ← (infer reg c).type
    if !isBool condType then typeError "?:" "bool condition" "condition" c condType
    else
      let trueType ← (infer reg t).type
      let falseType ← (infer reg e).type
      join trueType falseType e

def inferList (reg : Registry D) : List (Ast D) → List Static
  | [] => []
  | a :: as => infer reg a :: inferList reg as

end

end
end Typecheck

/-- `cxpr_typecheck`: the static type of the expression, if it has one. -/
def typecheck {D : Type} [Double D] (ast : Ast D) (reg : Registry D) : Except Error (Option ValueType) :=
  (Typecheck.infer reg ast).type

end Cxpr
