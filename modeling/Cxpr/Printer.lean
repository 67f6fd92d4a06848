import Cxpr.Ast

/-! AST-to-source rendering (`src/ast/printer.c`). -/

namespace Cxpr

def BinaryOp.precedence : BinaryOp → Nat
  | .or => 2
  | .and => 3
  | .eq | .neq => 5
  | .lt | .gt | .lte | .gte => 6
  | .plus | .minus => 7
  | .star | .slash | .percent => 8
  | .power => 10

/-- `cxpr_op_assoc`. -/
def BinaryOp.assocRight : BinaryOp → Bool
  | .power => true
  | _ => false

def BinaryOp.text : BinaryOp → String
  | .plus => "+"
  | .minus => "-"
  | .star => "*"
  | .slash => "/"
  | .percent => "%"
  | .power => "^"
  | .eq => "=="
  | .neq => "!="
  | .lt => "<"
  | .gt => ">"
  | .lte => "<="
  | .gte => ">="
  | .and => "and"
  | .or => "or"

namespace Printer
variable {D : Type}

def precedence : Ast D → Nat
  | .ternary _ _ _ => 1
  | .binary op _ _ => op.precedence
  | .unary _ _ => 9
  | _ => 11

def binaryChildNeedsParens (child : Ast D) (parentOp : BinaryOp) (isRightChild : Bool) : Bool :=
  match child with
  | .ternary _ _ _ => true
  | .binary op _ _ =>
    op.precedence < parentOp.precedence ||
      (op.precedence == parentOp.precedence && (if parentOp.assocRight then !isRightChild else isRightChild))
  | child => precedence child < parentOp.precedence

def isTernary : Ast D → Bool
  | .ternary _ _ _ => true
  | _ => false

/-- `cxpr_print_with_parens`. -/
def withParens (parens : Bool) (text : String) : String := if parens then "(" ++ text ++ ")" else text

/-- The body of `cxpr_print_string`: a double quote behind an even run of backslashes gets one of its own. -/
def escapeQuotes : Bool → List Char → List Char
  | _, [] => []
  | odd, c :: cs =>
    let rest := c :: escapeQuotes (c == '\\' && !odd) cs
    if c == '"' && !odd then '\\' :: rest else rest

def printString (value : String) : String := "\"" ++ String.ofList (escapeQuotes false value.toList) ++ "\""

/-- `cxpr_print_call_args`. -/
def printCallArgs (args : List String) (argNames : List (Option String)) : String :=
  ", ".intercalate <| args.zipIdx.map fun (text, i) =>
    match argNames[i]? with
    | some (some name) => name ++ "=" ++ text
    | _ => text

section
variable [Double D]

/-- `cxpr_print_number`. -/
def printNumber (value : D) : String :=
  if Double.isnan value then "nan()"
  else if Double.isinf value then (if Double.lt value Double.zero then "-inf()" else "inf()")
  else
    let readsBack (precision : Nat) : Bool :=
      match Double.strtod (Double.formatG precision value) with
      | some d => Double.eq d value
      | none => false
    match [15, 16, 17].find? readsBack with
    | some precision => Double.formatG precision value
    | none => Double.formatG 17 value

mutual

def printNode (parentPrec : Nat) : Ast D → String
  | .number v => printNumber v
  | .int64 v => toString v ++ "i64"
  | .bool v => if v then "true" else "false"
  | .array es => "[" ++ ", ".intercalate (printList es) ++ "]"
  | .record names values =>
    "\x7b" ++ ", ".intercalate ((names.zip (printList values)).map fun (n, v) => n ++ " = " ++ v) ++ "\x7d"
  | .string v => printString v
  | .identifier name => name
  | .param name => "$" ++ name
  | .fieldOf base field => "(" ++ printNode 0 base ++ ")." ++ field
  | .fieldAccess object field => object ++ "." ++ field
  | .chainAccess path => ".".intercalate path
  | .producerAccess name args argNames field =>
    name ++ "(" ++ printCallArgs (printList args) argNames ++ ")." ++ field
  | .binary op l r =>
    withParens (op.precedence < parentPrec) <|
      withParens (binaryChildNeedsParens l op false) (printNode 0 l) ++ " " ++ op.text ++ " " ++
      withParens (binaryChildNeedsParens r op true) (printNode 0 r)
  | .unary op a =>
    withParens (9 < parentPrec) <|
      (match op with | .not => "not " | .minus => "-") ++ withParens (precedence a < 9) (printNode 0 a)
  | .call name args argNames => name ++ "(" ++ printCallArgs (printList args) argNames ++ ")"
  | .index target i => printNode 11 target ++ "[" ++ printNode 0 i ++ "]"
  | .ternary c t e =>
    withParens (1 < parentPrec) <|
      withParens (isTernary c) (printNode 0 c) ++ " ? " ++ withParens (isTernary t) (printNode 0 t) ++ " : " ++
      withParens (isTernary e) (printNode 0 e)

def printList : List (Ast D) → List String
  | [] => []
  | a :: as => printNode 0 a :: printList as

end

end
end Printer

/-- `cxpr_expr_ast_to_string`. -/
def Ast.toText {D : Type} [Double D] (ast : Ast D) : String := Printer.printNode 0 ast

end Cxpr
