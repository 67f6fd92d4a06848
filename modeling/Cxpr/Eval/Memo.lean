import Cxpr.Registry

/-! The evaluation memo (`src/eval/helpers/cache.c`): a table of call nodes and their results on the context that is
    being evaluated. A node is found by its hash and a structural comparison. -/

namespace Cxpr.Eval
variable {D : Type}

/-- A computation of the evaluator: it reads and writes the context (memo table, cached structs) or fails. -/
abbrev EvalM (D : Type) := StateT (Context D) (Except Error)

def evalError {α : Type} (code : ErrorCode) (message : String) : EvalM D α := throw ⟨code, message⟩

/-! ### Hash and comparison -/

def hashMix (hash value : UInt64) : UInt64 :=
  hash ^^^ (value + 0x9e3779b9 + (hash <<< (6 : UInt64)) + (hash >>> (2 : UInt64)))

def hashString (hash : UInt64) (text : String) : UInt64 :=
  text.toUTF8.toList.foldl (fun h byte => (h ^^^ byte.toUInt64) * 1099511628211) hash

def binaryOpToken : BinaryOp → UInt64
  | .plus => 6
  | .minus => 7
  | .star => 8
  | .slash => 9
  | .percent => 10
  | .power => 11
  | .eq => 13
  | .neq => 14
  | .lt => 15
  | .gt => 16
  | .lte => 17
  | .gte => 18
  | .and => 19
  | .or => 20

def unaryOpToken : UnaryOp → UInt64
  | .minus => 7
  | .not => 21

/-- The hash a node starts from: the offset basis mixed with its `cxpr_expr_ast_kind`. -/
def hashKind (kind : UInt64) : UInt64 := hashMix 1469598103934665603 kind

def hashArgs (hash : UInt64) (args : List UInt64) (argNames : List (Option String)) : UInt64 :=
  let mixed := args.zipIdx.foldl (fun h (a, i) => hashMix (hashString h ((argNames[i]?.join).getD "")) a) hash
  hashMix mixed (UInt64.ofNat args.length)

section
variable [Double D]

mutual

def astHash : Ast D → UInt64
  | .number v => hashMix (hashKind 0) (Double.bits v)
  | .int64 v => hashMix (hashKind 1) v.toUInt64
  | .bool v => hashMix (hashKind 2) (if v then 1 else 0)
  | .array es => hashMix ((astHashList es).foldl hashMix (hashKind 3)) (UInt64.ofNat es.length)
  | .record names values =>
    let mixed := (names.zip (astHashList values)).foldl (fun h (n, v) => hashMix (hashString h n) v) (hashKind 4)
    hashMix mixed (UInt64.ofNat values.length)
  | .string v => hashString (hashKind 5) v
  | .identifier name => hashString (hashKind 6) name
  | .param name => hashString (hashKind 7) name
  | .fieldAccess object field => hashString (hashString (hashMix (hashKind 8) 0) object) field
  | .fieldOf base field => hashString (hashString (hashMix (hashKind 8) (astHash base)) "") field
  | .chainAccess path => hashMix (path.foldl hashString (hashKind 9)) (UInt64.ofNat path.length)
  | .producerAccess name args argNames field =>
    hashArgs (hashString (hashString (hashKind 10) name) field) (astHashList args) argNames
  | .binary op l r => hashMix (hashMix (hashMix (hashKind 11) (binaryOpToken op)) (astHash l)) (astHash r)
  | .unary op a => hashMix (hashMix (hashKind 12) (unaryOpToken op)) (astHash a)
  | .call name args argNames => hashArgs (hashString (hashKind 13) name) (astHashList args) argNames
  | .index t i => hashMix (hashMix (hashKind 14) (astHash t)) (astHash i)
  | .ternary c t e => hashMix (hashMix (hashMix (hashKind 15) (astHash c)) (astHash t)) (astHash e)

def astHashList : List (Ast D) → List UInt64
  | [] => []
  | a :: as => astHash a :: astHashList as

end

def argNamesEqual (argc : Nat) (ns ns' : List (Option String)) : Bool :=
  (List.range argc).all fun i => ns[i]?.join == ns'[i]?.join

mutual

/-- `cxpr_eval_ast_equal` on two distinct nodes. Doubles are compared with `==`. -/
def astEqual : Ast D → Ast D → Bool
  | .number a, .number b => Double.eq a b
  | .int64 a, .int64 b => a == b
  | .bool a, .bool b => a == b
  | .array es, .array es' => astEqualList es es'
  | .record ns vs, .record ns' vs' => ns == ns' && astEqualList vs vs'
  | .string a, .string b => a == b
  | .identifier a, .identifier b => a == b
  | .param a, .param b => a == b
  | .fieldAccess o f, .fieldAccess o' f' => o == o' && f == f'
  | .fieldOf b f, .fieldOf b' f' => astEqual b b' && f == f'
  | .chainAccess p, .chainAccess p' => p == p'
  | .producerAccess n as ns f, .producerAccess n' as' ns' f' =>
    n == n' && f == f' && argNamesEqual as.length ns ns' && astEqualList as as'
  | .binary op l r, .binary op' l' r' => op == op' && astEqual l l' && astEqual r r'
  | .unary op a, .unary op' a' => op == op' && astEqual a a'
  | .call n as ns, .call n' as' ns' => n == n' && argNamesEqual as.length ns ns' && astEqualList as as'
  | .index t i, .index t' i' => astEqual t t' && astEqual i i'
  | .ternary c t e, .ternary c' t' e' => astEqual c c' && astEqual t t' && astEqual e e'
  | _, _ => false

def astEqualList : List (Ast D) → List (Ast D) → Bool
  | [], [] => true
  | a :: as, b :: bs => astEqual a b && astEqualList as bs
  | _, _ => false

end

def memoMatches (ast : Ast D) (entry : Ast D × Value D) : Bool :=
  astHash entry.1 == astHash ast && astEqual entry.1 ast

def memoGet (ast : Ast D) : EvalM D (Option (Value D)) := fun ctx =>
  match ctx with
  | [] => .ok (none, ctx)
  | f :: _ =>
    if f.evalMemoDepth = 0 then .ok (none, ctx)
    else .ok ((f.evalMemo.find? (memoMatches ast)).map (·.2), ctx)

omit [Double D] in
/-- `cxpr_eval_memo_set`: only numbers and bools are kept. -/
def memoSet (ast : Ast D) (value : Value D) : EvalM D Unit := fun ctx =>
  match ctx with
  | [] => .ok ((), ctx)
  | f :: parent =>
    if f.evalMemoDepth = 0 then .ok ((), ctx)
    else
      match value with
      | .number _ | .bool _ => .ok ((), { f with evalMemo := f.evalMemo ++ [(ast, value)] } :: parent)
      | _ => .ok ((), ctx)

omit [Double D] in
def memoEnter (ctx : Context D) : Context D :=
  ctx.update fun f =>
    { f with
      evalMemo := if f.evalMemoDepth = 0 then [] else f.evalMemo
      evalMemoDepth := f.evalMemoDepth + 1 }

omit [Double D] in
def memoLeave (ctx : Context D) : Context D :=
  ctx.update fun f =>
    if f.evalMemoDepth = 0 then f
    else
      { f with
        evalMemo := if f.evalMemoDepth = 1 then [] else f.evalMemo
        evalMemoDepth := f.evalMemoDepth - 1 }

omit [Double D] in
/-- The function-call case of `cxpr_eval_ast_memoable`, and `cxpr_ir_call_instr_memoable` on the callee. -/
def memoable (entry : FuncEntry D) : Bool :=
  entry.astFuncHandler.isNone && entry.astFunc.isNone &&
    !(entry.structProducer.isSome && entry.syncFunc.isNone && entry.valueFunc.isNone)

end
end Cxpr.Eval
