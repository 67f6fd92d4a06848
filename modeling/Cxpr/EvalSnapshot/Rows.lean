import Cxpr.EvalSnapshot.Build
import Cxpr.Subexprs

/-! The nodes that a visit leaves, in closed form: each subexpression with the value that the builder shows for it,
    given what the evaluator returns for the subexpressions and leaves of the context in between. -/

namespace Cxpr.EvalSnapshot
open Ast
variable {D : Type}

structure Answers (D : Type) where
  ast : Ast D → Option (Value D)
  atOffset : Ast D → Nat → Option (Value D)

def Evaluation.on (ev : Evaluation D) (ctx : Context D) : Answers D :=
  ⟨fun a => (ev.ast a ctx).1, fun a i => (ev.atOffset a i ctx).1⟩

inductive Visited (ev : Evaluation D) (root : Ast D) (ctx : Context D) : Context D → Prop
  | start : Visited ev root ctx ctx
  | ast {c : Context D} {a : Ast D} : a ∈ subexprs root → Visited ev root ctx c → Visited ev root ctx (ev.ast a c).2
  | atOffset {c : Context D} {a : Ast D} (i : Nat) : a ∈ subexprs root → Visited ev root ctx c →
      Visited ev root ctx (ev.atOffset a i c).2

structure Steady (ev : Evaluation D) (root : Ast D) (ctx : Context D) : Prop where
  ast : ∀ c, Visited ev root ctx c → ∀ a ∈ subexprs root, (ev.ast a c).1 = (ev.ast a ctx).1
  atOffset : ∀ c, Visited ev root ctx c → ∀ a ∈ subexprs root, ∀ i, (ev.atOffset a i c).1 = (ev.atOffset a i ctx).1

section
variable [Double D] (out : Answers D) (reg : Registry D)

def shown : Ast D → Option (Value D)
  | .binary op l r =>
    match leftDecides op (shown l) with
    | some decided => some (.bool decided)
    | none => out.ast (.binary op l r)
  | .ternary c t e =>
    match chosenBranch (shown c) with
    | some true => shown t
    | some false => shown e
    | none => out.ast (.ternary c t e)
  | a => out.ast a

def stateWithout : Ast D → State
  | .ternary c _ _ =>
    match chosenBranch (shown out c) with
    | some _ => .unknown
    | none => .error
  | _ => .error

def rowOf (a : Ast D) (parent : Option Nat) (role : String) (active : Bool) : Node D :=
  if active then ⟨parent, role, .expr a, true, shown out a, ((shown out a).map stateForValue).getD (stateWithout out a)⟩
  else ⟨parent, role, .expr a, false, none, .skipped⟩

def textRow (parent : Nat) (role source : String) (active : Bool) : Node D :=
  ⟨some parent, role, .text source, active, none, if active then .value else .skipped⟩

def sampleRow (ast : Ast D) (parent i : Nat) : Node D :=
  ⟨some parent, "sample[" ++ toString i ++ "]", .sample ast i, true, out.atOffset ast i,
    ((out.atOffset ast i).map stateForValue).getD .error⟩

def sampleRows (name : String) (args : List (Ast D)) (parent : Nat) : List (Node D) :=
  match trendFunction name, args with
  | true, ast :: samples :: _ => ((out.ast samples).elim [] sampleOffsets).map (sampleRow out ast parent)
  | _, _ => []

def nameRow (name : String) (id : Nat) (active : Bool) : List (Node D) × Nat :=
  if active && name != "" then ([textRow id "function" name true], id + 1) else ([], id)

def segmentRows (parent : Nat) (active : Bool) (path : List String) : List (Node D) :=
  path.zipIdx.map fun x => textRow parent ("segment[" ++ toString x.2 ++ "]") x.1 active

mutual

def rows : Ast D → Option Nat → String → Bool → Nat → List (Node D)
  | .binary op l r, parent, role, active, n =>
    let left := rows l (some n) "left" active (n + 1)
    rowOf out (.binary op l r) parent role active ::
      (left ++ rows r (some n) "right" (active && (leftDecides op (shown out l)).isNone) (n + 1 + left.length))
  | .ternary c t e, parent, role, active, n =>
    let condition := rows c (some n) "condition" active (n + 1)
    let first := rows t (some n) "true" (active && chosenBranch (shown out c) == some true) (n + 1 + condition.length)
    rowOf out (.ternary c t e) parent role active ::
      (condition ++ first ++ rows e (some n) "false" (active && chosenBranch (shown out c) == some false)
        (n + 1 + condition.length + first.length))
  | .unary op a, parent, role, active, n =>
    rowOf out (.unary op a) parent role active :: rows a (some n) "operand" active (n + 1)
  | .index target i, parent, role, active, n =>
    let source := rows target (some n) "source" active (n + 1)
    rowOf out (.index target i) parent role active ::
      (source ++ rows i (some n) "index" active (n + 1 + source.length))
  | .array es, parent, role, active, n =>
    rowOf out (.array es) parent role active :: rowsAll (fun i => "item[" ++ toString i ++ "]") n active 0 es (n + 1)
  | .fieldOf base field, parent, role, active, n =>
    rowOf out (.fieldOf base field) parent role active ::
      (rows base (some n) "base" active (n + 1) ++ [textRow n "field" field active])
  | .fieldAccess object field, parent, role, active, n =>
    [rowOf out (.fieldAccess object field) parent role active, textRow n "object" object active,
      textRow n "field" field active]
  | .chainAccess path, parent, role, active, n =>
    rowOf out (.chainAccess path) parent role active :: segmentRows n active path
  | .call name args argNames, parent, role, active, n =>
    let (named, above) := nameRow name n active
    rowOf out (.call name args argNames) parent role active ::
      (named ++
        rowsAll (fun i => argRole (functionArgRole reg name i (argNames[i]?).join) i) above active 0 args
          (n + 1 + named.length) ++
        if active then sampleRows out name args above else [])
  | .producerAccess name args argNames field, parent, role, active, n =>
    let (named, above) := nameRow name n active
    let labelled := named ++ if active && field != "" then [textRow above "field" field true] else []
    rowOf out (.producerAccess name args argNames field) parent role active ::
      (labelled ++ rowsAll (fun i => argRole (argNames[i]?).join i) above active 0 args (n + 1 + labelled.length))
  | .record names values, parent, role, active, _ => [rowOf out (.record names values) parent role active]
  | .number v, parent, role, active, _ => [rowOf out (.number v) parent role active]
  | .int64 v, parent, role, active, _ => [rowOf out (.int64 v) parent role active]
  | .bool v, parent, role, active, _ => [rowOf out (.bool v) parent role active]
  | .string v, parent, role, active, _ => [rowOf out (.string v) parent role active]
  | .identifier name, parent, role, active, _ => [rowOf out (.identifier name) parent role active]
  | .param name, parent, role, active, _ => [rowOf out (.param name) parent role active]

def rowsAll (role : Nat → String) (parent : Nat) (active : Bool) : Nat → List (Ast D) → Nat → List (Node D)
  | _, [], _ => []
  | i, a :: as, n =>
    let first := rows a (some parent) (role i) active n
    first ++ rowsAll role parent active (i + 1) as (n + first.length)

end

theorem rows_eq_cons (a : Ast D) (parent : Option Nat) (role : String) (active : Bool) (n : Nat) :
    ∃ rest, rows out reg a parent role active n = rowOf out a parent role active :: rest := by
  cases a <;> exact ⟨_, rfl⟩

end
end Cxpr.EvalSnapshot
