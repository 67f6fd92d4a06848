import Cxpr.Value

/-! Expression trees (`include/cxpr/expr/ast.h`, `src/ast/internal.h`). A node is its kind and its payload; source
    spans and the per-node caches are left out. -/

namespace Cxpr

inductive BinaryOp where
  | plus | minus | star | slash | percent | power | eq | neq | lt | lte | gt | gte | and | or
  deriving DecidableEq, Repr

inductive UnaryOp where
  | minus | not
  deriving DecidableEq, Repr

/-- `cxpr_expr_ast`. `argNames` is empty for a call without an `arg_names` array. A field access on an object has the
    full key `object.field`, one on a base expression has none; a `$name` node is a `param`. -/
inductive Ast (D : Type) where
  | number (value : D)
  | int64 (value : Int64)
  | bool (value : Bool)
  | string (value : String)
  | array (elements : List (Ast D))
  | record (fieldNames : List String) (fieldValues : List (Ast D))
  | identifier (name : String)
  | param (name : String)
  | fieldAccess (object field : String)
  | fieldOf (base : Ast D) (field : String)
  | chainAccess (path : List String)
  | producerAccess (name : String) (args : List (Ast D)) (argNames : List (Option String)) (field : String)
  | binary (op : BinaryOp) (left right : Ast D)
  | unary (op : UnaryOp) (operand : Ast D)
  | call (name : String) (args : List (Ast D)) (argNames : List (Option String))
  | index (target index : Ast D)
  | ternary (condition trueBranch falseBranch : Ast D)

namespace Ast
variable {D : Type}

/-- The full key of a field access, and of a chain access with its path joined by dots. -/
def fullKey (path : List String) : String := ".".intercalate path

def callUsesNamedArgs (argc : Nat) (argNames : List (Option String)) : Bool :=
  (argNames.take argc).any Option.isSome

end Ast
end Cxpr
