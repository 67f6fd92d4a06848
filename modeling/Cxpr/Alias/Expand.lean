import Cxpr.Printer

/-! Alias expansion (`src/ast/alias.c`). An alias table is its entries in order; entries without a name or an expression
    are left out. The parser of the expression texts is a parameter. A clone of a tree is the tree. -/

namespace Cxpr.Alias
variable {D : Type}

/-- `cxpr_alias`: a name and its expression. -/
abbrev Aliases := List (String × String)

/-- Why there is no expanded tree: the error of the parser, "Expression alias cycle", "Out of memory" for a path without
    segments, a name that is no alias, and expressions nested more deeply than there is fuel. -/
inductive Failure where
  | parse (error : Error)
  | cycle
  | memory
  | noAlias
  | tooDeep
  deriving DecidableEq, Repr

def lookup (aliases : Aliases) (name : String) : Option String := if name = "" then none else aliases.lookup name

def isAlias (aliases : Aliases) (name : String) : Bool := (lookup aliases name).isSome

def makeFieldFromExpanded (expanded : Ast D) (field : String) : Option (Ast D) :=
  match expanded with
  | .call name args argNames => some (.producerAccess name args argNames field)
  | _ => none

section
variable (aliases : Aliases) (expandNamed : String → Except Failure (Ast D))

def expandObject (object tail : String) (ast : Ast D) : Except Failure (Ast D) :=
  if isAlias aliases object then do
    let expanded ← expandNamed object
    return (makeFieldFromExpanded expanded tail).getD ast
  else .ok ast

/-- `cxpr_alias_expand_field`. -/
def expandField (object field : String) : Except Failure (Ast D) :=
  if isAlias aliases (Ast.fullKey [object, field]) then expandNamed (Ast.fullKey [object, field])
  else expandObject aliases expandNamed object field (.fieldAccess object field)

def expandChain : List String → Except Failure (Ast D)
  | [] => .error .memory
  | first :: rest =>
    if isAlias aliases (Ast.fullKey (first :: rest)) then expandNamed (Ast.fullKey (first :: rest))
    else expandObject aliases expandNamed first (Ast.fullKey rest) (.chainAccess (first :: rest))

mutual

def expandAst : Ast D → Except Failure (Ast D)
  | .identifier name => if isAlias aliases name then expandNamed name else .ok (.identifier name)
  | .fieldOf base field => do
    let base ← expandAst base
    return .fieldOf base field
  | .fieldAccess object field => expandField aliases expandNamed object field
  | .chainAccess path => expandChain aliases expandNamed path
  | .binary op left right => do
    let left ← expandAst left
    let right ← expandAst right
    return .binary op left right
  | .unary op operand => do
    let operand ← expandAst operand
    return .unary op operand
  | .call name args argNames => do
    let args ← expandArgs args
    return .call name args argNames
  | .producerAccess name args argNames field => do
    let args ← expandArgs args
    return .producerAccess name args argNames field
  | .index target index => do
    let target ← expandAst target
    let index ← expandAst index
    return .index target index
  | .ternary condition trueBranch falseBranch => do
    let condition ← expandAst condition
    let trueBranch ← expandAst trueBranch
    let falseBranch ← expandAst falseBranch
    return .ternary condition trueBranch falseBranch
  -- the default of the switch
  | .number v => .ok (.number v)
  | .int64 v => .ok (.int64 v)
  | .bool v => .ok (.bool v)
  | .string v => .ok (.string v)
  | .param name => .ok (.param name)
  | .array elements => .ok (.array elements)
  | .record fieldNames fieldValues => .ok (.record fieldNames fieldValues)

def expandArgs : List (Ast D) → Except Failure (List (Ast D))
  | [] => .ok []
  | a :: as => do
    let a ← expandAst a
    let as ← expandArgs as
    return a :: as

end
end

section
variable (parse : String → Except Error (Ast D)) (aliases : Aliases)

/-- `cxpr_alias_expand_named`, below the names of the stack. -/
def expandNamed : Nat → List String → String → Except Failure (Ast D)
  | 0, _, _ => .error .tooDeep
  | fuel + 1, stack, name =>
    match lookup aliases name with
    | none => .error .noAlias
    | some expression =>
      if name ∈ stack then .error .cycle
      else
        match parse expression with
        | .error e => .error (.parse e)
        | .ok ast => expandAst aliases (expandNamed fuel (name :: stack)) ast

/-- The tree that `cxpr_expand_aliases` prints. The stack holds every alias once at most. -/
def expandTree (expression : String) : Except Failure (Ast D) :=
  match parse expression with
  | .error e => .error (.parse e)
  | .ok ast => expandAst aliases (expandNamed parse aliases (aliases.length + 1) []) ast

def expandAliases [Double D] (expression : String) : Except Failure String :=
  (expandTree parse aliases expression).map Ast.toText

end

section
variable (aliases : Aliases)

/-- The longest alias among the first `n` prefixes of a path, with the segments behind it. -/
def prefixAlias (path : List String) : Nat → Option (String × List String)
  | 0 => none
  | n + 1 =>
    if isAlias aliases (Ast.fullKey (path.take (n + 1))) then some (Ast.fullKey (path.take (n + 1)), path.drop (n + 1))
    else prefixAlias path n

def aliasOf (path : List String) : Option (String × List String) := prefixAlias aliases path path.length

def fieldOn (ast : Ast D) (field : String) : Ast D := (makeFieldFromExpanded ast field).getD (.fieldOf ast field)

def segments? : Ast D → Option (List String)
  | .identifier name => some [name]
  | .fieldAccess object field => some [object, field]
  | .chainAccess path => some path
  | _ => none

def pathRefs (path : List String) : List String := ((aliasOf aliases path).map Prod.fst).toList

def substPath (E : String → Ast D) (path : List String) (ast : Ast D) : Ast D :=
  match aliasOf aliases path with
  | some (name, tail) => tail.foldl fieldOn (E name)
  | none => ast

mutual

def refs : Ast D → List String
  | .identifier name => pathRefs aliases [name]
  | .fieldAccess object field => pathRefs aliases [object, field]
  | .chainAccess path => pathRefs aliases path
  | .array elements => refsList elements
  | .record _ fieldValues => refsList fieldValues
  | .fieldOf base _ => refs base
  | .producerAccess _ args _ _ => refsList args
  | .binary _ left right => refs left ++ refs right
  | .unary _ operand => refs operand
  | .call _ args _ => refsList args
  | .index target index => refs target ++ refs index
  | .ternary condition trueBranch falseBranch => refs condition ++ (refs trueBranch ++ refs falseBranch)
  | .number _ | .int64 _ | .bool _ | .string _ | .param _ => []

def refsList : List (Ast D) → List String
  | [] => []
  | a :: as => refs a ++ refsList as

end

mutual

def subst (E : String → Ast D) : Ast D → Ast D
  | .identifier name => substPath aliases E [name] (.identifier name)
  | .fieldAccess object field => substPath aliases E [object, field] (.fieldAccess object field)
  | .chainAccess path => substPath aliases E path (.chainAccess path)
  | .array elements => .array (substList E elements)
  | .record fieldNames fieldValues => .record fieldNames (substList E fieldValues)
  | .fieldOf base field => .fieldOf (subst E base) field
  | .producerAccess name args argNames field => .producerAccess name (substList E args) argNames field
  | .binary op left right => .binary op (subst E left) (subst E right)
  | .unary op operand => .unary op (subst E operand)
  | .call name args argNames => .call name (substList E args) argNames
  | .index target index => .index (subst E target) (subst E index)
  | .ternary condition trueBranch falseBranch =>
    .ternary (subst E condition) (subst E trueBranch) (subst E falseBranch)
  | .number v => .number v
  | .int64 v => .int64 v
  | .bool v => .bool v
  | .string v => .string v
  | .param name => .param name

def substList (E : String → Ast D) : List (Ast D) → List (Ast D)
  | [] => []
  | a :: as => subst E a :: substList E as

end
end

end Cxpr.Alias
