import Cxpr.Eval.Tree
import Cxpr.Printer

/-! The diagnostic snapshot of an evaluation (`src/eval/snapshot/build.c`): the nodes of an expression in the order in
    which they are visited, each evaluated by `cxpr_eval_ast` on its own or given the value of a child. Labels and the
    other texts that are only displayed are left out. -/

namespace Cxpr.EvalSnapshot
variable {D : Type}

inductive State where
  | unknown
  | boolTrue
  | boolFalse
  | number
  | value
  | skipped
  | error
  deriving DecidableEq, Repr

inductive Subject (D : Type) where
  | expr (ast : Ast D)
  | text (source : String)
  | sample (ast : Ast D) (offset : Nat)

/-- `cxpr_snapshot_node`. The identifier of a node is its index. -/
structure Node (D : Type) where
  parent : Option Nat
  role : String
  subject : Subject D
  active : Bool
  value : Option (Value D) := none
  state : State

/-- `cxpr_snapshot_builder`. -/
structure Builder (D : Type) where
  ctx : Context D
  nodes : List (Node D) := []

/-- The evaluator as the builder calls it, `cxpr_eval_ast` and `cxpr_eval_ast_at_offset`: a value if the evaluation
    succeeds, and the context after it. -/
structure Evaluation (D : Type) where
  ast : Ast D → Context D → Option (Value D) × Context D
  atOffset : Ast D → Nat → Context D → Option (Value D) × Context D

def stateForValue : Value D → State
  | .bool true => .boolTrue
  | .bool false => .boolFalse
  | .number _ => .number
  | _ => .value

namespace Builder

def addNode (b : Builder D) (subject : Subject D) (parent : Option Nat) (role : String) (active : Bool) : Builder D :=
  { b with nodes := b.nodes ++ [⟨parent, role, subject, active, none, if active then .unknown else .skipped⟩] }

def addTextChild (b : Builder D) (parent : Nat) (role source : String) (active : Bool) : Builder D :=
  { b with nodes := b.nodes ++ [⟨some parent, role, .text source, active, none, if active then .value else .skipped⟩] }

def setValue (b : Builder D) (id : Nat) (v : Value D) : Builder D :=
  { b with nodes := b.nodes.modify id fun node => { node with value := some v, state := stateForValue v } }

def setError (b : Builder D) (id : Nat) : Builder D :=
  { b with nodes := b.nodes.modify id fun node => { node with state := .error } }

def record (b : Builder D) (id : Nat) (result : Option (Value D) × Context D) : Builder D :=
  match result with
  | (some v, ctx) => { b with ctx }.setValue id v
  | (none, ctx) => { b with ctx }.setError id

def evalNode (ev : Evaluation D) (ast : Ast D) (id : Nat) (b : Builder D) : Builder D := b.record id (ev.ast ast b.ctx)

def valueAt (b : Builder D) (id : Nat) : Option (Value D) := b.nodes[id]?.bind (·.value)

def takeValue (b : Builder D) (id child : Nat) : Builder D :=
  match b.valueAt child with
  | some v => b.setValue id v
  | none => b

end Builder

def trendFunction (name : String) : Bool := name == "falling" || name == "rising" || name == "net_up" || name == "net_down"

def functionArgRole (reg : Registry D) (name : String) (i : Nat) (explicit : Option String) : Option String :=
  explicit <|> (reg.find name).bind (·.entryParamNames[i]?) <|>
    if trendFunction name then ["value", "samples"][i]?
    else if name == "contains" then ["source", "values"][i]?
    else if name == "within" then ["source", "min", "max", "include_min", "include_max"][i]?
    else none

def argRole (name : Option String) (i : Nat) : String :=
  match name with
  | some name => String.ofList (name.toList.take 31)
  | none => "arg" ++ toString i

section
variable [Double D] (ev : Evaluation D)

/-- The positions of `cxpr_snapshot_add_timeseries_samples` behind the present one: at most eight with it. -/
def sampleOffsets : Value D → List Nat
  | .number d =>
    if !Double.isfinite d || Double.lt (Double.floor d) Double.one then []
    else List.range' 1 (min (Double.toSize (Double.floor d)) 8 - 1)
  | _ => []

omit [Double D] in
def addSample (ast : Ast D) (parent : Nat) (b : Builder D) (i : Nat) : Builder D :=
  (b.addNode (.sample ast i) (some parent) ("sample[" ++ toString i ++ "]") true).record b.nodes.length
    (ev.atOffset ast i b.ctx)

def addTimeseriesSamples (name : String) (args : List (Ast D)) (parent : Nat) (b : Builder D) : Builder D :=
  match trendFunction name, args with
  | true, ast :: samples :: _ =>
    match ev.ast samples b.ctx with
    | (some v, ctx) => (sampleOffsets v).foldl (addSample ev ast parent) { b with ctx }
    | (none, ctx) => { b with ctx }
  | _, _ => b

def leftDecides : BinaryOp → Option (Value D) → Option Bool
  | .and, some (.bool false) => some false
  | .or, some (.bool true) => some true
  | _, _ => none

def chosenBranch : Option (Value D) → Option Bool
  | some (.bool chosen) => some chosen
  | _ => none

def addSegments (parent : Nat) (active : Bool) (b : Builder D) (path : List String) : Builder D :=
  path.zipIdx.foldl (fun b (segment, i) => b.addTextChild parent ("segment[" ++ toString i ++ "]") segment active) b

/-- The node above the arguments of a call that is evaluated, which holds its name
    (`cxpr_snapshot_add_function_name_node`, `cxpr_snapshot_add_producer_name_node`). -/
def addNameNode (name : String) (id : Nat) (active : Bool) (b : Builder D) : Builder D × Nat :=
  if active && name != "" then (b.addTextChild id "function" name true, b.nodes.length) else (b, id)

mutual

/-- `cxpr_snapshot_visit`, with the visits of the children of each kind of node. -/
def visit (reg : Registry D) : Ast D → Option Nat → String → Bool → Builder D → Builder D
  | .binary op l r, parent, role, active, b =>
    let id := b.nodes.length
    let b := visit reg l (some id) "left" active (b.addNode (.expr (.binary op l r)) parent role active)
    if active then
      match leftDecides op (b.valueAt (id + 1)) with
      | some decided => (visit reg r (some id) "right" false b).setValue id (.bool decided)
      | none => (visit reg r (some id) "right" true b).evalNode ev (.binary op l r) id
    else visit reg r (some id) "right" false b
  | .ternary c t e, parent, role, active, b =>
    let id := b.nodes.length
    let b := visit reg c (some id) "condition" active (b.addNode (.expr (.ternary c t e)) parent role active)
    if active then
      match chosenBranch (b.valueAt (id + 1)) with
      | some chosen =>
        let branchId := b.nodes.length
        let b := visit reg t (some id) "true" chosen b
        let branchId := if chosen then branchId else b.nodes.length
        (visit reg e (some id) "false" (!chosen) b).takeValue id branchId
      | none =>
        (visit reg e (some id) "false" false (visit reg t (some id) "true" false b)).evalNode ev (.ternary c t e) id
    else visit reg e (some id) "false" false (visit reg t (some id) "true" false b)
  | .unary op a, parent, role, active, b =>
    finish (.unary op a) b.nodes.length active
      (visit reg a (some b.nodes.length) "operand" active (b.addNode (.expr (.unary op a)) parent role active))
  | .index target i, parent, role, active, b =>
    finish (.index target i) b.nodes.length active
      (visit reg i (some b.nodes.length) "index" active
        (visit reg target (some b.nodes.length) "source" active (b.addNode (.expr (.index target i)) parent role active)))
  | .array es, parent, role, active, b =>
    finish (.array es) b.nodes.length active
      (visitAll reg (fun i => "item[" ++ toString i ++ "]") b.nodes.length active 0 es
        (b.addNode (.expr (.array es)) parent role active))
  | .fieldOf base field, parent, role, active, b =>
    finish (.fieldOf base field) b.nodes.length active
      ((visit reg base (some b.nodes.length) "base" active
        (b.addNode (.expr (.fieldOf base field)) parent role active)).addTextChild b.nodes.length "field" field active)
  | .fieldAccess object field, parent, role, active, b =>
    finish (.fieldAccess object field) b.nodes.length active
      (((b.addNode (.expr (.fieldAccess object field)) parent role active).addTextChild b.nodes.length "object" object
        active).addTextChild b.nodes.length "field" field active)
  | .chainAccess path, parent, role, active, b =>
    finish (.chainAccess path) b.nodes.length active
      (addSegments b.nodes.length active (b.addNode (.expr (.chainAccess path)) parent role active) path)
  | .call name args argNames, parent, role, active, b =>
    let (named, above) := addNameNode name b.nodes.length active (b.addNode (.expr (.call name args argNames)) parent role active)
    let visited := visitAll reg (fun i => argRole (functionArgRole reg name i (argNames[i]?).join) i) above active 0 args named
    finish (.call name args argNames) b.nodes.length active
      (if active then addTimeseriesSamples ev name args above visited else visited)
  | .producerAccess name args argNames field, parent, role, active, b =>
    let (named, above) :=
      addNameNode name b.nodes.length active (b.addNode (.expr (.producerAccess name args argNames field)) parent role active)
    let labelled := if active && field != "" then named.addTextChild above "field" field true else named
    finish (.producerAccess name args argNames field) b.nodes.length active
      (visitAll reg (fun i => argRole (argNames[i]?).join i) above active 0 args labelled)
  -- the values of a record's fields are not visited
  | .record names values, parent, role, active, b => leaf (.record names values) parent role active b
  | .number v, parent, role, active, b => leaf (.number v) parent role active b
  | .int64 v, parent, role, active, b => leaf (.int64 v) parent role active b
  | .bool v, parent, role, active, b => leaf (.bool v) parent role active b
  | .string v, parent, role, active, b => leaf (.string v) parent role active b
  | .identifier name, parent, role, active, b => leaf (.identifier name) parent role active b
  | .param name, parent, role, active, b => leaf (.param name) parent role active b
where
  /-- An active node is evaluated when its children have been visited. -/
  finish (ast : Ast D) (id : Nat) (active : Bool) (b : Builder D) : Builder D :=
    if active then b.evalNode ev ast id else b
  /-- A node without children. -/
  leaf (ast : Ast D) (parent : Option Nat) (role : String) (active : Bool) (b : Builder D) : Builder D :=
    finish ast b.nodes.length active (b.addNode (.expr ast) parent role active)

def visitAll (reg : Registry D) (role : Nat → String) (parent : Nat) (active : Bool) : Nat → List (Ast D) → Builder D → Builder D
  | _, [], b => b
  | i, a :: as, b => visitAll reg role parent active (i + 1) as (visit reg a (some parent) (role i) active b)

end

structure Snapshot (D : Type) where
  nodes : List (Node D)
  result : Option (Value D)
  state : Option State

def build (reg : Registry D) (ast : Ast D) (ctx : Context D) : Snapshot D :=
  let nodes := (visit ev reg ast none "root" true { ctx }).nodes
  ⟨nodes, nodes.head?.bind (·.value), nodes.head?.map (·.state)⟩

end
end Cxpr.EvalSnapshot
