import Cxpr.Eval.Agree

/-! The collectors of names (`src/ast/references.c`): references, called functions and parameters, each name once and
    into an array of the caller. -/

namespace Cxpr.Ast
variable {D : Type}

mutual

/-- The names `cxpr_collect_functions` comes across, one for each mention. -/
def called : Ast D → List String
  | .array es => calledList es
  | .record _ values => calledList values
  | .call name args _ => name :: calledList args
  | .producerAccess name args _ _ => name :: calledList args
  | .binary _ l r => called l ++ called r
  | .unary _ a => called a
  | .index t i => called t ++ called i
  | .ternary c t e => called c ++ called t ++ called e
  | .number _ | .int64 _ | .bool _ | .string _ | .identifier _ | .param _ | .fieldAccess _ _ | .fieldOf _ _
  | .chainAccess _ => []

def calledList : List (Ast D) → List String
  | [] => []
  | a :: as => called a ++ calledList as

end

mutual

/-- The names `cxpr_collect_variables` comes across, one for each mention. -/
def usedParams : Ast D → List String
  | .param name => [name]
  | .array es => usedParamsList es
  | .record _ values => usedParamsList values
  | .call _ args _ => usedParamsList args
  | .producerAccess _ args _ _ => usedParamsList args
  | .binary _ l r => usedParams l ++ usedParams r
  | .unary _ a => usedParams a
  | .index t i => usedParams t ++ usedParams i
  | .ternary c t e => usedParams c ++ usedParams t ++ usedParams e
  | .number _ | .int64 _ | .bool _ | .string _ | .identifier _ | .fieldAccess _ _ | .fieldOf _ _
  | .chainAccess _ => []

def usedParamsList : List (Ast D) → List String
  | [] => []
  | a :: as => usedParams a ++ usedParamsList as

end

structure Collected where
  names : List String := []
  count : Nat := 0
  deriving DecidableEq

/-- `cxpr_add_unique_name`. -/
def Collected.add (maxNames : Nat) (c : Collected) (name : String) : Collected :=
  if name ∈ c.names then c
  else ⟨if c.count < maxNames then c.names ++ [name] else c.names, c.count + 1⟩

def collect (maxNames : Nat) (names : List String) : Collected := names.foldl (Collected.add maxNames) {}

end Cxpr.Ast
