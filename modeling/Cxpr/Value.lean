import Cxpr.Double

/-! Runtime values and errors (`include/cxpr/types.h`). A struct is its fields in order, an array its elements. -/

namespace Cxpr

/-- `cxpr_value`: the tag and the payload the tag selects. -/
inductive Value (D : Type) where
  | number (d : D)
  | bool (b : Bool)
  | struct (fields : List (String × Value D))
  | string (str : String)
  | null
  | timestamp (unixNs : Int64)
  | duration (nanoseconds : Int64)
  | array (values : List (Value D))
  | int64 (i : Int64)

inductive ValueType where
  | number | bool | struct | string | null | timestamp | duration | array | int64
  deriving DecidableEq, Repr

def Value.type {D : Type} : Value D → ValueType
  | .number _ => .number
  | .bool _ => .bool
  | .struct _ => .struct
  | .string _ => .string
  | .null => .null
  | .timestamp _ => .timestamp
  | .duration _ => .duration
  | .array _ => .array
  | .int64 _ => .int64

/-- The value of a field of a struct (`cxpr_struct_get_field`). -/
def structGetField {D : Type} (fields : List (String × Value D)) (field : String) : Option (Value D) :=
  (fields.find? (·.1 == field)).map (·.2)

/-- `cxpr_error_code` without `CXPR_OK`. `stackOverflow` is no code of the library: it stands for the C stack running
    out under nested calls of defined functions. -/
inductive ErrorCode where
  | syntaxError | unknownIdentifier | unknownFunction | wrongArity | divisionByZero | circularDependency
  | typeMismatch | outOfMemory | invalidIndex | indexOutOfRange | stackOverflow
  deriving DecidableEq, Repr

/-- `cxpr_error`: the code and the message. -/
structure Error where
  code : ErrorCode
  message : String
  deriving DecidableEq, Repr

theorem bind_eq_ok {ε α β : Type} {x : Except ε α} {f : α → Except ε β} {b : β} :
    x >>= f = .ok b ↔ ∃ a, x = .ok a ∧ f a = .ok b := by
  cases x with
  | error e => simp [bind, Except.bind]
  | ok a => simp [bind, Except.bind]

end Cxpr
