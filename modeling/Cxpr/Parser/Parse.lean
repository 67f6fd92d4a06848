import Cxpr.Ast

/-! The recursive descent parser (`src/parser`) over tokens. The parser state is the list of the tokens that are left:
    its head is `current`, its end is `CXPR_TOK_EOF`. An error token starts and continues nothing, so that a text with a
    lexical error is rejected; which of several messages it is rejected with is not kept. -/

namespace Cxpr.Parser
variable {D : Type}

/-- `cxpr_token`. The operator tokens carry their operator, `true` and `false` their value, `$name` is a `param`. -/
inductive Token (D : Type) where
  | number (value : D)
  | int64 (value : Int64)
  | identifier (name : String)
  | param (name : String)
  | bool (value : Bool)
  | string (value : String)
  | op (op : BinaryOp)
  | not | kwIn | assign
  | lparen | rparen | lbracket | rbracket | lbrace | rbrace
  | comma | dot | pipe | question | colon
  | error (message : String)

abbrev Parse (D α : Type) := List (Token D) → Except Error (α × List (Token D))

/-- `cxpr_expr_parser_set_error`. -/
def syntaxError {α : Type} (message : String) : Except Error α := .error ⟨.syntaxError, message⟩

def tooDeep {α : Type} : Except Error α := .error ⟨.stackOverflow, "Expression nested too deeply"⟩

def argNamesOf (argc : Nat) (argNames : List (Option String)) : List (Option String) :=
  (List.range argc).map fun i => argNames[i]?.join

mutual

/-- `cxpr_expr_parser_clone_ast`. -/
def cloneAst : Ast D → Ast D
  | .number v => .number v
  | .int64 v => .int64 v
  | .bool v => .bool v
  | .string v => .string v
  | .array es => .array (cloneList es)
  | .record names values => .record names (cloneList values)
  | .identifier name => .identifier name
  | .param name => .param name
  | .fieldAccess object field => .fieldAccess object field
  | .fieldOf base field => .fieldOf (cloneAst base) field
  | .chainAccess path => .chainAccess path
  | .producerAccess name args argNames field =>
    .producerAccess name (cloneList args) (argNamesOf args.length argNames) field
  | .binary op l r => .binary op (cloneAst l) (cloneAst r)
  | .unary op a => .unary op (cloneAst a)
  | .call name args argNames => .call name (cloneList args) (argNamesOf args.length argNames)
  | .index t i => .index (cloneAst t) (cloneAst i)
  | .ternary c t e => .ternary (cloneAst c) (cloneAst t) (cloneAst e)

def cloneList : List (Ast D) → List (Ast D)
  | [] => []
  | a :: as => cloneAst a :: cloneList as

end

def pipeInjectArgument (stage piped : Ast D) : Except Error (Ast D) :=
  match stage with
  | .identifier name => .ok (.call name [piped] [none])
  | .call name args argNames => .ok (.call name (piped :: args) (none :: argNamesOf args.length argNames))
  | .producerAccess name args argNames field =>
    .ok (.producerAccess name (piped :: args) (none :: argNamesOf args.length argNames) field)
  | _ => syntaxError "Expected callable after '|>' (identifier or function call)"

def windowReductionName : String → Option String
  | "max" => some "__cxpr_window_highest"
  | "min" => some "__cxpr_window_lowest"
  | "sum" => some "__cxpr_window_sum"
  | "mean" => some "__cxpr_window_mean"
  | "stddev" => some "__cxpr_window_stddev"
  | "wma" => some "__cxpr_window_wma"
  | "roc" => some "__cxpr_window_roc"
  | _ => none

/-- `cxpr_parse_lower_window_reduction`. -/
def lowerWindowReduction (name : String) (args : List (Ast D)) (argNames : List (Option String)) : Ast D :=
  if name = "roc" ∧ args.length = 2 then .call "__cxpr_window_roc" args argNames
  else
    let lowered :=
      if name = "mean_absdev" ∧ args.length = 2 then some "__cxpr_window_mean_absdev"
      else if args.length = 1 then windowReductionName name
      else none
    match lowered, args with
    | some loweredName, .call "window" [x, n] windowNames :: tail =>
      let first := match windowNames[0]?.join with
        | some "expr" => some "value"
        | first => first
      .call loweredName (x :: n :: tail)
        (first :: windowNames[1]?.join :: (argNamesOf (tail.length + 1) argNames).drop 1)
    | _, _ => .call name args argNames

/-! ### Comparison chains -/

def isSubjectNode : Ast D → Bool
  | .identifier _ | .param _ | .fieldAccess _ _ | .fieldOf _ _ | .chainAccess _ | .index _ _
  | .producerAccess _ _ _ _ => true
  | _ => false

def isThresholdNode : Ast D → Bool
  | .number _ | .param _ => true
  | _ => false

/-- `cxpr_expr_parser_is_relational_token`. -/
def isRelational : BinaryOp → Bool
  | .lt | .gt | .lte | .gte => true
  | _ => false

def relationalOpsCrossBounds (first next : BinaryOp) : Bool :=
  ((first == .gt || first == .gte) && (next == .lt || next == .lte)) ||
    ((first == .lt || first == .lte) && (next == .gt || next == .gte))

/-- `cxpr_parse_relational` in its loop. -/
structure Chain (D : Type) where
  left : Ast D
  right : Ast D
  firstOp : BinaryOp
  subject : Option (Ast D)

def Chain.start (op : BinaryOp) (left right : Ast D) : Chain D :=
  ⟨.binary op left right, right, op, if isSubjectNode left && isThresholdNode right then some (cloneAst left) else none⟩

def Chain.next (c : Chain D) (op : BinaryOp) (right : Ast D) : Chain D :=
  let compared := match c.subject with
    | some subject => if relationalOpsCrossBounds c.firstOp op then subject else c.right
    | none => c.right
  { c with left := .binary .and c.left (.binary op (cloneAst compared) right), right := right }

def membership (negated : Bool) (left array : Ast D) : Ast D :=
  let call := .call "contains" [left, array] []
  if negated then .unary .not call else call

/-! ### Levels

Every function takes the parser of a whole expression, for nested ones, and a bound on the tokens. -/

section
variable (expr : Parse D (Ast D))

def parseSegments (message : String) : List (Token D) → Except Error (List String × List (Token D))
  | .dot :: .identifier name :: rest => do
    let (names, rest) ← parseSegments message rest
    return (name :: names, rest)
  | .dot :: _ => syntaxError message
  | rest => .ok ([], rest)

def parseCallArgument : Parse D (Option String × Ast D)
  | .identifier name :: .assign :: rest => do
    let (a, rest) ← expr rest
    return ((some name, a), rest)
  | tokens => do
    let (a, rest) ← expr tokens
    return ((none, a), rest)

def parseArguments : Nat → Parse D (List (Option String × Ast D))
  | 0, _ => tooDeep
  | fuel + 1, tokens => do
    let (arg, rest) ← parseCallArgument expr tokens
    match rest with
    | .comma :: rest =>
      let (args, rest) ← parseArguments fuel rest
      return (arg :: args, rest)
    | .rparen :: rest => return ([arg], rest)
    | _ => syntaxError "Expected ')' after function arguments"

/-- `cxpr_expr_parser_parse_arg_list`. -/
def parseArgList (fuel : Nat) : Parse D (List (Option String × Ast D))
  | .rparen :: rest => .ok ([], rest)
  | tokens => parseArguments expr fuel tokens

def parseElements : Nat → Parse D (List (Ast D))
  | 0, _ => tooDeep
  | fuel + 1, tokens => do
    let (e, rest) ← expr tokens
    match rest with
    | .comma :: rest =>
      let (es, rest) ← parseElements fuel rest
      return (e :: es, rest)
    | .rbracket :: rest => return ([e], rest)
    | _ => syntaxError "Expected ']' to close array"

/-- `cxpr_parse_array_literal`. -/
def parseArrayLiteral (fuel : Nat) : Parse D (List (Ast D))
  | .rbracket :: rest => .ok ([], rest)
  | tokens => parseElements expr fuel tokens

def parseField : Parse D (String × Ast D)
  | .identifier name :: .assign :: rest | .identifier name :: .colon :: rest => do
    let (v, rest) ← expr rest
    return ((name, v), rest)
  | .identifier name :: rest => .ok ((name, .identifier name), rest)
  | _ => syntaxError "Expected record field name"

def parseFields : Nat → Parse D (List (String × Ast D))
  | 0, _ => tooDeep
  | fuel + 1, tokens => do
    let (field, rest) ← parseField expr tokens
    match rest with
    | .comma :: rest =>
      let (fields, rest) ← parseFields fuel rest
      return (field :: fields, rest)
    | .rbrace :: rest => return ([field], rest)
    | _ => syntaxError "Expected '\x7d' to close record"

/-- `cxpr_parse_record_literal`. -/
def parseRecordLiteral (fuel : Nat) : Parse D (List (String × Ast D))
  | .rbrace :: rest => .ok ([], rest)
  | tokens => parseFields expr fuel tokens

def callNode (plain : Bool) (name : String) (args : List (Option String × Ast D)) : Ast D :=
  if plain then lowerWindowReduction name (args.map (·.2)) (args.map (·.1))
  else .call name (args.map (·.2)) (args.map (·.1))

def parseCallField (plain : Bool) (name : String) (args : List (Option String × Ast D)) : Parse D (Ast D)
  | .dot :: .identifier field :: rest => .ok (.producerAccess name (args.map (·.2)) (args.map (·.1)) field, rest)
  | .dot :: _ => syntaxError "Expected field name after '.'"
  | rest => .ok (callNode plain name args, rest)

def parseGroupField (a : Ast D) : Parse D (Ast D)
  | .dot :: .identifier field :: rest => .ok (.fieldOf a field, rest)
  | .dot :: _ => syntaxError "Expected field name after '.'"
  | rest => .ok (a, rest)

def pathNode (name : String) : List String → Ast D
  | [] => .identifier name
  | [field] => .fieldAccess name field
  | segments => .chainAccess (name :: segments)

/-- `cxpr_parse_primary`. -/
def parseAtom (fuel : Nat) : Parse D (Ast D)
  | .number v :: rest => .ok (.number v, rest)
  | .int64 v :: rest => .ok (.int64 v, rest)
  | .bool v :: rest => .ok (.bool v, rest)
  | .string v :: rest => .ok (.string v, rest)
  | .param name :: rest => do
    let (segments, rest) ← parseSegments "Expected parameter segment after '.'" rest
    return (.param (Ast.fullKey (name :: segments)), rest)
  | .identifier name :: rest => do
    let (segments, rest) ← parseSegments "Expected field name after '.'" rest
    match rest with
    | .lparen :: rest =>
      let (args, rest) ← parseArgList expr fuel rest
      parseCallField segments.isEmpty (Ast.fullKey (name :: segments)) args rest
    | rest => return (pathNode name segments, rest)
  | .lparen :: rest => do
    let (a, rest) ← expr rest
    match rest with
    | .rparen :: rest => parseGroupField a rest
    | _ => syntaxError "Expected closing ')'"
  | .lbracket :: rest => do
    let (es, rest) ← parseArrayLiteral expr fuel rest
    return (.array es, rest)
  | .lbrace :: rest => do
    let (fields, rest) ← parseRecordLiteral expr fuel rest
    return (.record (fields.map (·.1)) (fields.map (·.2)), rest)
  | _ => syntaxError "Unexpected token"

def indexLoop : Nat → Ast D → Parse D (Ast D)
  | 0, _, _ => tooDeep
  | fuel + 1, node, tokens =>
    match tokens with
    | .lbracket :: rest => do
      let (i, rest) ← expr rest
      match rest with
      | .rbracket :: rest => indexLoop fuel (.index node i) rest
      | _ => syntaxError "Expected closing ']' after index expression"
    | _ => .ok (node, tokens)

def parsePrimary (fuel : Nat) : Parse D (Ast D) := fun tokens => do
  let (node, rest) ← parseAtom expr fuel tokens
  indexLoop expr fuel node rest

/-- `cxpr_parse_power`. -/
def parsePower (unary : Parse D (Ast D)) (fuel : Nat) : Parse D (Ast D) := fun tokens => do
  let (left, rest) ← parsePrimary expr fuel tokens
  match rest with
  | .op .power :: rest =>
    let (right, rest) ← unary rest
    return (.binary .power left right, rest)
  | rest => return (left, rest)

def parseUnary : Nat → Parse D (Ast D)
  | 0, _ => tooDeep
  | fuel + 1, tokens =>
    match tokens with
    | .op .minus :: rest => do
      let (a, rest) ← parseUnary fuel rest
      return (.unary .minus a, rest)
    | .op .plus :: rest => parseUnary fuel rest
    | tokens => parsePower expr (parseUnary fuel) (fuel + 1) tokens

def leftLoop (accepts : BinaryOp → Bool) (operand : Parse D (Ast D)) : Nat → Ast D → Parse D (Ast D)
  | 0, _, _ => tooDeep
  | fuel + 1, left, tokens =>
    match tokens with
    | .op op :: rest =>
      if accepts op then do
        let (right, rest) ← operand rest
        leftLoop accepts operand fuel (.binary op left right) rest
      else .ok (left, tokens)
    | _ => .ok (left, tokens)

def parseLeft (accepts : BinaryOp → Bool) (operand : Parse D (Ast D)) (fuel : Nat) : Parse D (Ast D) := fun tokens => do
  let (left, rest) ← operand tokens
  leftLoop accepts operand fuel left rest

def isTermOp : BinaryOp → Bool
  | .star | .slash | .percent => true
  | _ => false

def isArithmeticOp : BinaryOp → Bool
  | .plus | .minus => true
  | _ => false

def parseTerm (fuel : Nat) : Parse D (Ast D) := parseLeft isTermOp (parseUnary expr fuel) fuel

def parseArithmetic (fuel : Nat) : Parse D (Ast D) := parseLeft isArithmeticOp (parseTerm expr fuel) fuel

def chainLoop (operand : Parse D (Ast D)) : Nat → Chain D → Parse D (Ast D)
  | 0, _, _ => tooDeep
  | fuel + 1, c, tokens =>
    match tokens with
    | .op op :: rest =>
      if isRelational op then do
        let (right, rest) ← operand rest
        chainLoop operand fuel (c.next op right) rest
      else .ok (c.left, tokens)
    | _ => .ok (c.left, tokens)

/-- `cxpr_parse_set_membership`. -/
def parseSetMembership (operand : Parse D (Ast D)) (left : Ast D) (negated : Bool) : Parse D (Ast D)
  | .lbracket :: .rbracket :: _ => syntaxError "Set membership requires at least one element"
  | .lbracket :: rest => do
    let (array, rest) ← operand (.lbracket :: rest)
    return (membership negated left array, rest)
  | _ => syntaxError "Expected '[' to start set after 'in'"

def parseRelational (fuel : Nat) : Parse D (Ast D) := fun tokens => do
  let operand := parseArithmetic expr fuel
  let (left, rest) ← operand tokens
  match rest with
  | .op op :: rest' =>
    if isRelational op then do
      let (right, rest) ← operand rest'
      chainLoop operand fuel (.start op left right) rest
    else return (left, rest)
  | .not :: .kwIn :: rest => parseSetMembership operand left true rest
  | .kwIn :: rest => parseSetMembership operand left false rest
  | rest => return (left, rest)

def isEqualityOp : BinaryOp → Bool
  | .eq | .neq => true
  | _ => false

def parseEquality (fuel : Nat) : Parse D (Ast D) := fun tokens => do
  let (left, rest) ← parseRelational expr fuel tokens
  match rest with
  | .op op :: rest' =>
    if isEqualityOp op then do
      let (right, rest) ← parseRelational expr fuel rest'
      return (.binary op left right, rest)
    else return (left, rest)
  | rest => return (left, rest)

def parseNot (bound : Nat) : Nat → Parse D (Ast D)
  | 0, _ => tooDeep
  | fuel + 1, tokens =>
    match tokens with
    | .not :: rest => do
      let (a, rest) ← parseNot bound fuel rest
      return (.unary .not a, rest)
    | tokens => parseEquality expr bound tokens

def parseAnd (fuel : Nat) : Parse D (Ast D) := parseLeft (· == .and) (parseNot expr fuel fuel) fuel

def parseOr (fuel : Nat) : Parse D (Ast D) := parseLeft (· == .or) (parseAnd expr fuel) fuel

def parseTernary (fuel : Nat) : Parse D (Ast D) := fun tokens => do
  let (condition, rest) ← parseOr expr fuel tokens
  match rest with
  | .question :: rest =>
    let (trueBranch, rest) ← expr rest
    match rest with
    | .colon :: rest =>
      let (falseBranch, rest) ← expr rest
      return (.ternary condition trueBranch falseBranch, rest)
    | _ => syntaxError "Expected ':' in ternary expression"
  | rest => return (condition, rest)

def pipeLoop (stage : Parse D (Ast D)) : Nat → Ast D → Parse D (Ast D)
  | 0, _, _ => tooDeep
  | fuel + 1, left, tokens =>
    match tokens with
    | .pipe :: rest => do
      let (s, rest) ← stage rest
      let node ← pipeInjectArgument s left
      pipeLoop stage fuel node rest
    | _ => .ok (left, tokens)

def parsePipe (fuel : Nat) : Parse D (Ast D) := fun tokens => do
  let (left, rest) ← parseTernary expr fuel tokens
  pipeLoop (parseTernary expr fuel) fuel left rest

end

/-- `cxpr_parse_expression`, by the tokens that are left. -/
def parseExpression : Nat → Parse D (Ast D)
  | 0, _ => tooDeep
  | fuel + 1, tokens => parsePipe (parseExpression fuel) (fuel + 1) tokens

def startsPrimary : Token D → Bool
  | .number _ | .int64 _ | .identifier _ | .param _ | .string _ | .bool _ | .lparen => true
  | _ => false

def exprAstParse (tokens : List (Token D)) : Except Error (Ast D) := do
  let (ast, rest) ← parseExpression (tokens.length + 1) tokens
  match rest with
  | [] => return ast
  | t :: _ =>
    syntaxError (if startsPrimary t then "Implicit multiplication is not supported; use '*' explicitly"
      else "Unexpected token after expression")

end Cxpr.Parser
