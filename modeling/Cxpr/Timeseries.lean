import Cxpr.Registry

/-! The built-in time-series functions (`src/timeseries.c`). They get the call as it is written and evaluate its
    arguments themselves, now and at earlier positions. -/

namespace Cxpr.Timeseries
variable {D : Type} [Double D]

/-- What the functions evaluate arguments with: `cxpr_eval_ast_number`, `cxpr_eval_ast_number_at_offset` and
    `cxpr_eval_ast_bool_at_offset`. -/
structure Evaluator (D : Type) where
  number : Ast D → Context D → Except Error D
  numberAt : Ast D → Nat → Context D → Except Error D
  boolAt : Ast D → Nat → Context D → Except Error Bool

abbrev ArgsFunc (D : Type) := List (Ast D) → Context D → Except Error (Value D)

omit [Double D] in
/-- `cxpr_expr_ast_call_arg_count` and `cxpr_expr_ast_call_arg` on the call. -/
def ofCall (f : ArgsFunc D) : AstFunc D
  | .call _ args _, ctx => f args ctx
  | _, _ => .error ⟨.syntaxError, "Time-series function expects a call AST"⟩

def countOf (minimum : Int) (message : String) (value : D) : Except Error Nat :=
  let rounded := Double.llround value
  if !Double.isfinite value || Double.gt (Double.fabs (Double.sub value (Double.ofInt64 rounded))) Double.tolerance ||
      rounded.toInt < minimum then
    .error ⟨.syntaxError, message⟩
  else .ok rounded.toInt.toNat

/-- `cxpr_timeseries_read_samples`, and the argument before it. -/
def readSamples (eval : Evaluator D) (minimum : Int) (arity : String) (args : List (Ast D)) (ctx : Context D) :
    Except Error (Ast D × Nat) :=
  match args with
  | [value, samples] => do
    let count ← eval.number samples ctx
    return (value, ← countOf minimum "Time-series samples must be an integer above the minimum" count)
  | _ => .error ⟨.wrongArity, arity⟩

def samplesArity : String := "Time-series function expects value, samples"

omit [Double D] in
def nowAndBefore (eval : Evaluator D) (value : Ast D) (samples : Nat) (ctx : Context D) : Except Error (D × D) := do
  let now ← eval.numberAt value 0 ctx
  return (now, ← eval.numberAt value samples ctx)

def delta (eval : Evaluator D) : ArgsFunc D := fun args ctx => do
  let (value, samples) ← readSamples eval 1 samplesArity args ctx
  let (now, previous) ← nowAndBefore eval value samples ctx
  return .number (Double.sub now previous)

structure Window (D : Type) where
  sum : D
  sumsq : D
  extreme : D
  count : Nat

end Cxpr.Timeseries
