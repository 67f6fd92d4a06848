import Cxpr.Ast
import Mathlib.Algebra.Order.Floor.Ring
import Mathlib.Algebra.Field.Basic

/-! Which window calls of a model get a ring of their own in the emitted C (`src/model/window/plan.c`), how large it is,
    and what a binding is emitted as (`src/model/codegen/codegen_generate.c`, `emit/window.c`, `ast/window_opt.c`). The
    arithmetic is exact: numbers are those of an ordered field, and a value is a number or, as `none`, NaN. -/

namespace Cxpr.Codegen
variable {F : Type} [Field F] [LinearOrder F] [FloorRing F]

def lround (x : F) : Int := if 0 ≤ x then ⌊x + 1 / 2⌋ else -⌊-x + 1 / 2⌋

def fmod (x y : F) : F := x - y * (if 0 ≤ x / y then ⌊x / y⌋ else ⌈x / y⌉)

def fpick (pick : F → F → F) : Option F → Option F → Option F
  | some x, some y => some (pick x y)
  | some x, none => some x
  | none, y => y

def tiny : F := 1 / 10 ^ 12

def nano : F := 1 / 10 ^ 9

/-- The `0.5` of midpoints. -/
abbrev half : F := 1 / 2

def argNamesEqual (n : Nat) (left right : List (Option String)) : Bool :=
  (List.range n).all fun i => left[i]?.join == right[i]?.join

mutual

/-- `cxpr_model_ast_equal` on two trees that share no node. There is no case for arrays. -/
def modelAstEqual : Ast F → Ast F → Bool
  | .number x, .number y => decide (|x - y| < tiny)
  | .int64 x, .int64 y => x == y
  | .bool x, .bool y => x == y
  | .string x, .string y => x == y
  | .identifier x, .identifier y => x == y
  | .param x, .param y => x == y
  | .fieldOf b f, .fieldOf b' f' => modelAstEqual b b' && f == f'
  | .fieldAccess o f, .fieldAccess o' f' => o == o' && f == f'
  | .chainAccess path, .chainAccess path' => path == path'
  | .record names values, .record names' values' => names == names' && modelAstEqualList values values'
  | .binary op l r, .binary op' l' r' => op == op' && modelAstEqual l l' && modelAstEqual r r'
  | .unary op a, .unary op' a' => op == op' && modelAstEqual a a'
  | .call name args names, .call name' args' names' =>
    name == name' && argNamesEqual args.length names names' && modelAstEqualList args args'
  | .producerAccess name args names f, .producerAccess name' args' names' f' =>
    name == name' && f == f' && argNamesEqual args.length names names' && modelAstEqualList args args'
  | .index t i, .index t' i' => modelAstEqual t t' && modelAstEqual i i'
  | .ternary c t f, .ternary c' t' f' => modelAstEqual c c' && modelAstEqual t t' && modelAstEqual f f'
  | _, _ => false

def modelAstEqualList : List (Ast F) → List (Ast F) → Bool
  | [], [] => true
  | a :: as, b :: bs => modelAstEqual a b && modelAstEqualList as bs
  | _, _ => false

end

/-- A parameter of the model: its default and the `max` of its metadata. -/
structure Constant (F : Type) where
  name : String
  ast : Option (Ast F)
  max : Option F

/-- A binding or, with `update`, a state update. The guard on invalid input is `skipped`. -/
structure Binding (F : Type) where
  update : Bool
  ast : Ast F
  needed : Bool
  skipped : Bool
  recordLike : Bool

/-- What the generator reads of a compiled model. `depth` gives the depth of the history of an expression, if it has one;
    `pow` and `sqrt` are the library's. -/
structure WindowModel (F : Type) where
  pow : Option F → Option F → Option F
  sqrt : F → F
  fused : Bool
  constants : List (Constant F)
  bindings : List (Binding F)
  literals : Option (List (Option F))
  guarded : Bool
  depth : Ast F → Option Nat
  bits : Nat

namespace WindowModel

/-- The binary cases of `cxpr_eval_constant_double`. -/
def constantBinary (p : WindowModel F) (x y : Option F) : BinaryOp → Option (Option F)
  | .plus => some (Option.map₂ (· + ·) x y)
  | .minus => some (Option.map₂ (· - ·) x y)
  | .star => some (Option.map₂ (· * ·) x y)
  | .slash => if y = some 0 then none else some (Option.map₂ (· / ·) x y)
  | .percent => if y = some 0 then none else some (Option.map₂ fmod x y)
  | .power => some (p.pow x y)
  | _ => none

def constantDouble (p : WindowModel F) : Ast F → Option (Option F)
  | .number v => some (some v)
  | .unary .minus a => (p.constantDouble a).map (Option.map (- ·))
  | .binary op l r => (p.constantDouble l).bind fun x => (p.constantDouble r).bind fun y => p.constantBinary x y op
  | .ternary c t f => (p.constantDouble c).bind fun x => if x = some 0 then p.constantDouble f else p.constantDouble t
  | _ => none

def constant? (p : WindowModel F) (name : String) : Option (Constant F) := p.constants.find? (·.name == name)

/-- The binary cases of `cxpr_model_window_plan_constant_expr`. -/
def planBinary (x y : Option F) : BinaryOp → Option (Option F)
  | .plus => some (Option.map₂ (· + ·) x y)
  | .minus => some (Option.map₂ (· - ·) x y)
  | .star => some (Option.map₂ (· * ·) x y)
  | .slash =>
    match y with
    | some d => if tiny < |d| then some (x.map (· / d)) else none
    | none => none
  | _ => none

mutual

/-- `cxpr_model_window_plan_constant_expr`. -/
def constantExpr (p : WindowModel F) : Ast F → Option (Option F)
  | .param name => (p.constant? name).bind fun c => c.ast.bind p.constantDouble
  | .call name args _ =>
    if name == "min" then (p.constantExprs args).bind fun vs => vs.head?.map fun v => vs.tail.foldl (fpick min) v
    else if name == "max" then (p.constantExprs args).bind fun vs => vs.head?.map fun v => vs.tail.foldl (fpick max) v
    else none
  | .binary op l r =>
    match p.constantDouble (.binary op l r) with
    | some v => some v
    | none => (p.constantExpr l).bind fun x => (p.constantExpr r).bind fun y => planBinary x y op
  | ast => p.constantDouble ast

def constantExprs (p : WindowModel F) : List (Ast F) → Option (List (Option F))
  | [] => some []
  | a :: as => (p.constantExpr a).bind fun v => (p.constantExprs as).map (v :: ·)

end

def wholePeriod (raw : Option F) : Nat :=
  let x := match raw with
    | some x => if x < 1 then 1 else x
    | none => 1
  (max 1 (lround x)).toNat

/-- `cxpr_model_window_plan_period_capacity`, which is `cxpr_model_c_window_period_capacity` too. -/
def periodCapacity (p : WindowModel F) (period : Ast F) : Nat :=
  match period with
  | .param name =>
    match (p.constant? name).bind (·.max) with
    | some limit => wholePeriod (some limit)
    | none => wholePeriod ((p.constantExpr period).getD (some 512))
  | _ => wholePeriod ((p.constantExpr period).getD (some 512))

/-! ### Plans -/

/-- The functions of `window_ops`. -/
def windowFunctions : List String :=
  ["__cxpr_window_roc", "__cxpr_window_sum", "__cxpr_window_mean", "__cxpr_window_wma", "__cxpr_window_stddev",
    "__cxpr_window_highest", "__cxpr_window_lowest", "bars_since_extreme", "__cxpr_window_mean_absdev"]

/-- `cxpr_model_window_is_function`. -/
def isWindowCall : Ast F → Bool
  | .call name _ _ => windowFunctions.contains name
  | _ => false

inductive PlanOp where
  | roc | sum | mean
  deriving DecidableEq

def PlanOp.name : PlanOp → String
  | .roc => "__cxpr_window_roc"
  | .sum => "__cxpr_window_sum"
  | .mean => "__cxpr_window_mean"

/-- `cxpr_model_window_plan_node`. `origin` is the binding whose whole expression the node was planned for. -/
structure PlanNode (F : Type) where
  ast : Ast F
  op : PlanOp
  value : Ast F
  period : Ast F
  capacity : Nat
  child : Option Nat
  origin : Option Nat

def append (plan : List (PlanNode F)) (node : PlanNode F) : List (PlanNode F) × Nat :=
  match plan.findIdx? fun e =>
      e.op = node.op && e.capacity == node.capacity && e.child == node.child && modelAstEqual e.ast node.ast with
  | some i => (plan, i)
  | none => (plan ++ [node], plan.length)

/-- `cxpr_model_window_plan_add_nested_roc_aggregate`. -/
def addAggregate (p : WindowModel F) (origin : Option Nat) (ast : Ast F) (op : PlanOp) (value period : Ast F)
    (plan : List (PlanNode F)) : List (PlanNode F) :=
  match value with
  | .call "__cxpr_window_roc" [x, rocPeriod] _ =>
    let (plan, r) := append plan ⟨value, .roc, x, rocPeriod, p.periodCapacity rocPeriod, none, none⟩
    (append plan ⟨ast, op, x, period, p.periodCapacity period, some r, origin⟩).1
  | _ =>
    if isWindowCall value then plan
    else (append plan ⟨ast, op, value, period, p.periodCapacity period, none, origin⟩).1

/-- What `cxpr_model_window_plan_visit` does at a node before it goes on to the operands. -/
def addCall (p : WindowModel F) (origin : Option Nat) (plan : List (PlanNode F)) (ast : Ast F) : List (PlanNode F) :=
  match ast with
  | .call "__cxpr_window_sum" [value, period] _ => p.addAggregate origin ast .sum value period plan
  | .call "__cxpr_window_mean" [value, period] _ => p.addAggregate origin ast .mean value period plan
  | _ => plan

mutual

/-- The calls that `cxpr_model_window_plan_visit` comes to, in its order. -/
def visited : Ast F → List (Ast F)
  | .call name args names => .call name args names :: visitedList args
  | .binary _ l r => visited l ++ visited r
  | .unary _ a => visited a
  | .ternary c t f => visited c ++ visited t ++ visited f
  | .index t i => visited t ++ visited i
  | _ => []

def visitedList : List (Ast F) → List (Ast F)
  | [] => []
  | a :: as => visited a ++ visitedList as

end

/-- `cxpr_model_window_plan_visit` on the expression of binding `i`. -/
def visit (p : WindowModel F) (plan : List (PlanNode F)) (i : Nat) (ast : Ast F) : List (PlanNode F) :=
  match ast with
  | .call _ args _ => (visitedList args).foldl (p.addCall none) (p.addCall (some i) plan ast)
  | _ => (visited ast).foldl (p.addCall none) plan

/-- `cxpr_model_window_plan_build`. -/
def plan (p : WindowModel F) : List (PlanNode F) :=
  if p.fused then p.bindings.zipIdx.foldl (fun plan (b, i) => p.visit plan i b.ast) [] else []

/-- `cxpr_model_window_plan_find_ast`. -/
def findAst (p : WindowModel F) (i : Nat) (ast : Ast F) : Option Nat :=
  p.plan.findIdx? fun node => node.origin == some i || modelAstEqual node.ast ast

def literal? (p : WindowModel F) (name : String) : Option (Option F) :=
  p.literals.bind fun values => (p.constants.findIdx? (·.name == name)).bind (values[·]?)

/-- `cxpr_model_c_period_is_static_capacity`. -/
def isStatic (p : WindowModel F) (period : Ast F) (capacity : Nat) : Bool :=
  match period with
  | .param name =>
    match p.literal? name with
    | some v => wholePeriod v == capacity
    | none => false
  | _ =>
    match p.constantExpr period with
    | some v => wholePeriod v == capacity
    | none => false

def clampPeriod (capacity : Nat) (value : Option F) : Option Nat :=
  let x : Int := max 1 (match value with | some v => min capacity (lround v) | none => capacity)
  if x ≤ 2147483647 then some x.toNat else none

/-- The value of the expression that `cxpr_model_c_period_limit_expr` prints, where the period has `value`. -/
def periodLimit (p : WindowModel F) (period : Ast F) (capacity : Nat) (value : Option F) : Option Nat :=
  match period with
  | .param name =>
    if p.isStatic period capacity then some capacity
    else
      match p.constantExpr (.param name) with
      | some (some default) =>
        if wholePeriod (some default) == capacity && value = some default then some capacity else clampPeriod capacity value
      | _ => clampPeriod capacity value
  | _ =>
    match p.constantExpr period with
    | some (some default) => if wholePeriod (some default) == capacity then some capacity else clampPeriod capacity value
    | _ => clampPeriod capacity value

/-! ### Emissions -/

/-- The reductions of `cxpr_window_reduce`. -/
inductive Reduce where
  | sum | mean | highest | lowest | stddev | weightedMean
  deriving DecidableEq

/-- `cxpr_model_c_window_op_code`. -/
def reduce? : String → Option Reduce
  | "__cxpr_window_sum" => some .sum
  | "__cxpr_window_mean" => some .mean
  | "__cxpr_window_highest" => some .highest
  | "__cxpr_window_lowest" => some .lowest
  | "__cxpr_window_stddev" => some .stddev
  | "__cxpr_window_wma" => some .weightedMean
  | _ => none

/-- What a binding is emitted as: nothing, a copy of an earlier binding, one half of a mean and standard deviation, the
    update of the ring of a plan node, a midpoint or another loop over a window, text that is no C, or an expression. -/
inductive Emit (F : Type) where
  | skipped
  | copy (i : Nat)
  | pairMean (value period : Ast F)
  | pairStddev (value period : Ast F)
  | rolling (node : Nat)
  | midpoint (high low period : Ast F)
  | loop (op : Reduce) (value period : Ast F)
  | garbled
  | plain

def periodAstSame : Ast F → Ast F → Bool
  | .param x, .param y => x == y
  | .number x, .number y => decide (|x - y| < tiny)
  | _, _ => false

def astSameSimple : Ast F → Ast F → Bool
  | .identifier x, .identifier y => x == y
  | .param x, .param y => x == y
  | .number x, .number y => decide (|x - y| < tiny)
  | _, _ => false

/-- `cxpr_model_c_ast_is_number`. -/
def isHalf : Ast F → Bool
  | .number x => decide (|x - 1 / 2| < tiny)
  | _ => false

/-- `cxpr_model_c_match_high_low_midpoint`. -/
def highLow? : Ast F → Option (Ast F × Ast F × Ast F)
  | .binary .plus (.call "__cxpr_window_highest" [high, period] _) (.call "__cxpr_window_lowest" [low, period'] _) =>
    if periodAstSame period period' then some (high, low, period) else none
  | .binary .plus (.call "__cxpr_window_lowest" [low, period'] _) (.call "__cxpr_window_highest" [high, period] _) =>
    if periodAstSame period period' then some (high, low, period) else none
  | _ => none

/-- `cxpr_model_c_match_scaled_high_low_midpoint`. -/
def midpoint? : Ast F → Option (Ast F × Ast F × Ast F)
  | .binary .star left right => if isHalf left then highLow? right else if isHalf right then highLow? left else none
  | _ => none

/-- `cxpr_model_c_emit_optimized_single_binding`. -/
def emitSingle (ast : Ast F) : Emit F :=
  match midpoint? ast with
  | some (high, low, period) => .midpoint high low period
  | none =>
    match ast with
    | .call name [value, period] _ =>
      match reduce? name with
      | some op => if isWindowCall value then .plain else .loop op value period
      | none => .plain
    | _ => .plain

/-- `cxpr_model_c_emit_planned_roc_aggregate_binding`. -/
def emitPlanned (p : WindowModel F) (i : Nat) (ast : Ast F) : Emit F :=
  match p.findAst i ast with
  | none => emitSingle ast
  | some j =>
    match p.plan[j]? with
    | none => emitSingle ast
    | some node =>
      if node.op = .roc then emitSingle ast
      else
        match node.child with
        | none => if (p.depth node.value).isSome then .rolling j else emitSingle ast
        | some c =>
          match p.plan[c]? with
          | none => emitSingle ast
          | some roc =>
            if (p.isStatic roc.period roc.capacity && p.isStatic node.period node.capacity) || (p.depth roc.value).isSome then
              .rolling j
            -- the text of the update is printed before the fallback fails
            else .garbled

/-- `cxpr_model_c_match_mean_stddev_pair`. -/
def pair? : Ast F → Ast F → Option (Ast F × Ast F)
  | .call "__cxpr_window_mean" [value, period] _, .call "__cxpr_window_stddev" [value', period'] _ =>
    if astSameSimple value value' && periodAstSame period period' then some (value, period) else none
  | _, _ => none

def startsPair (b : Binding F) : List (Binding F) → Option (Ast F × Ast F)
  | next :: _ => if next.needed && !next.skipped && !b.update && !next.update then pair? b.ast next.ast else none
  | [] => none

/-- `cxpr_model_c_find_common_binding_expr`. -/
def findCommon (b : Binding F) (named : List (Nat × Ast F)) : Option Nat :=
  if b.update then none else (named.find? fun (_, ast) => modelAstEqual ast b.ast).map (·.1)

def passesOver (b : Binding F) : Bool :=
  !b.needed || b.skipped || b.recordLike ||
    (b.update && match b.ast with | .identifier _ => true | _ => false)

/-- The loop of `cxpr_model_compiled_generate_c_ast` over the bindings, from binding `i` on; `second` is the pair that the
    binding before started. -/
def emitFrom (p : WindowModel F) : Nat → Option (Ast F × Ast F) → List (Nat × Ast F) → List (Binding F) → List (Emit F)
  | _, _, _, [] => []
  | i, some (value, period), named, b :: rest => .pairStddev value period :: emitFrom p (i + 1) none (named ++ [(i, b.ast)]) rest
  | i, none, named, b :: rest =>
    if passesOver b then .skipped :: emitFrom p (i + 1) none named rest
    else
      match findCommon b named with
      | some j => .copy j :: emitFrom p (i + 1) none (named ++ [(i, b.ast)]) rest
      | none =>
        match startsPair b rest with
        | some (value, period) =>
          .pairMean value period :: emitFrom p (i + 1) (some (value, period)) (named ++ [(i, b.ast)]) rest
        | none =>
          p.emitPlanned i b.ast :: emitFrom p (i + 1) none (if b.update then named else named ++ [(i, b.ast)]) rest

def emissions (p : WindowModel F) : List (Emit F) := p.emitFrom 0 none [] p.bindings

/-! ### What is planned -/

def calls (p : WindowModel F) : List (Ast F) := p.bindings.flatMap fun b => visited b.ast

/-- What a plan says of one of its nodes: it is a rate of change, a sum or mean of an expression, or a sum or mean over a
    rate of change, which has a node of its own. -/
inductive Planned (p : WindowModel F) (plan : List (PlanNode F)) : PlanNode F → Prop
  | roc (value period names) :
    Planned p plan ⟨.call "__cxpr_window_roc" [value, period] names, .roc, value, period, p.periodCapacity period, none, none⟩
  | simple (op value period names origin) (hop : op ≠ .roc) (hvalue : isWindowCall value = false)
      (hmem : .call op.name [value, period] names ∈ p.calls) :
    Planned p plan ⟨.call op.name [value, period] names, op, value, period, p.periodCapacity period, none, origin⟩
  | nested (op x rocPeriod rocNames period names origin c roc) (hop : op ≠ .roc)
      (hmem : .call op.name [.call "__cxpr_window_roc" [x, rocPeriod] rocNames, period] names ∈ p.calls)
      (hchild : plan[c]? = some roc) (hroc : roc.op = .roc) :
    Planned p plan ⟨.call op.name [.call "__cxpr_window_roc" [x, rocPeriod] rocNames, period] names, op, x, period,
      p.periodCapacity period, some c, origin⟩

def PlannedAll (p : WindowModel F) (plan : List (PlanNode F)) : Prop := ∀ node ∈ plan, Planned p plan node

omit [FloorRing F] in
theorem append_cases (plan : List (PlanNode F)) (node : PlanNode F) :
    (append plan node = (plan ++ [node], plan.length)) ∨
      ∃ i e, append plan node = (plan, i) ∧ plan[i]? = some e ∧ e.op = node.op := by
  unfold append
  split
  · rename_i i hfind
    obtain ⟨hi, hmatch, _⟩ := List.findIdx?_eq_some_iff_getElem.mp hfind
    simp only [Bool.and_eq_true, decide_eq_true_eq] at hmatch
    exact .inr ⟨i, plan[i], rfl, List.getElem?_eq_getElem hi, hmatch.1.1.1⟩
  · exact .inl rfl

variable {p : WindowModel F} {plan : List (PlanNode F)} {b : Binding F}

theorem Planned.append {node : PlanNode F}
    (h : Planned p plan node) (more : List (PlanNode F)) : Planned p (plan ++ more) node := by
  cases h with
  | roc value period names => exact .roc value period names
  | simple op value period names origin hop hvalue hmem => exact .simple op value period names origin hop hvalue hmem
  | nested op x rocPeriod rocNames period names origin c roc hop hmem hchild hroc =>
    have hlt : c < plan.length := (List.getElem?_eq_some_iff.mp hchild).1
    exact .nested op x rocPeriod rocNames period names origin c roc hop hmem (by rwa [List.getElem?_append_left hlt]) hroc

theorem PlannedAll.append {p : WindowModel F} {plan : List (PlanNode F)} {node : PlanNode F} (h : PlannedAll p plan)
    (hnode : Planned p plan node) :
    PlannedAll p (append plan node).1 ∧ ∃ e, (append plan node).1[(append plan node).2]? = some e ∧ e.op = node.op := by
  obtain heq | ⟨i, e, heq, he, hop⟩ := append_cases plan node
  · rw [heq]
    refine ⟨fun n hn => ?_, node, List.getElem?_concat_length, rfl⟩
    rcases List.mem_append.mp hn with hold | hnew
    · exact (h n hold).append _
    · cases List.mem_singleton.mp hnew
      exact hnode.append _
  · rw [heq]
    exact ⟨h, e, he, hop⟩

theorem PlannedAll.addAggregate (h : PlannedAll p plan) (origin : Option Nat)
    (op : PlanOp) {value period : Ast F} {names : List (Option String)} (hop : op ≠ .roc)
    (hmem : .call op.name [value, period] names ∈ p.calls) :
    PlannedAll p (p.addAggregate origin (.call op.name [value, period] names) op value period plan) := by
  unfold WindowModel.addAggregate
  split
  · rename_i x rocPeriod rocNames
    obtain ⟨hroc, e, he, heop⟩ := h.append (.roc x rocPeriod rocNames)
    exact (hroc.append (.nested op x rocPeriod rocNames period names origin _ e hop hmem he heop)).1
  · split
    · exact h
    · rename_i hvalue
      exact (h.append (.simple op value period names origin hop (by simpa using hvalue) hmem)).1

theorem PlannedAll.addCall (h : PlannedAll p plan) (origin : Option Nat)
    {ast : Ast F} (hmem : ast ∈ p.calls) : PlannedAll p (p.addCall origin plan ast) := by
  unfold WindowModel.addCall
  split
  · rename_i value period names
    exact h.addAggregate origin .sum (by decide) hmem
  · rename_i value period names
    exact h.addAggregate origin .mean (by decide) hmem
  · exact h

theorem PlannedAll.addCalls {asts : List (Ast F)} (h : PlannedAll p plan)
    (hmem : ∀ ast ∈ asts, ast ∈ p.calls) : PlannedAll p (asts.foldl (p.addCall none) plan) := by
  induction asts generalizing plan with
  | nil => exact h
  | cons ast asts ih =>
    exact ih (h.addCall none (hmem ast List.mem_cons_self)) fun a ha => hmem a (List.mem_cons_of_mem _ ha)

theorem PlannedAll.visit (h : PlannedAll p plan) (i : Nat)
    (hb : b ∈ p.bindings) : PlannedAll p (p.visit plan i b.ast) := by
  have hmem : ∀ ast ∈ visited b.ast, ast ∈ p.calls := fun ast hast => List.mem_flatMap.mpr ⟨b, hb, hast⟩
  unfold WindowModel.visit
  split
  · rename_i name args names heq
    rw [heq, visited] at hmem
    rw [heq]
    exact (h.addCall (some i) (hmem _ List.mem_cons_self)).addCalls fun a ha => hmem a (List.mem_cons_of_mem _ ha)
  · exact h.addCalls hmem

theorem plannedAll_plan (p : WindowModel F) : PlannedAll p p.plan := by
  unfold plan
  split
  · have hstep : ∀ (bs : List (Binding F × Nat)) (plan : List (PlanNode F)), (∀ b ∈ bs, b.1 ∈ p.bindings) → PlannedAll p plan →
        PlannedAll p (bs.foldl (fun plan (b, i) => p.visit plan i b.ast) plan) := by
      intro bs
      induction bs with
      | nil => exact fun _ _ h => h
      | cons b bs ih =>
        intro plan hbs h
        exact ih _ (fun b hb => hbs b (List.mem_cons_of_mem _ hb)) (h.visit b.2 (hbs b List.mem_cons_self))
    refine hstep _ _ (fun b hb => ?_) (fun node hnode => nomatch hnode)
    exact List.fst_mem_of_mem_zipIdx hb
  · exact fun node hnode => nomatch hnode

theorem one_le_wholePeriod (raw : Option F) : 1 ≤ wholePeriod raw := by
  have hle : (1 : Int) ≤ max 1 (lround (match raw with | some x => if x < 1 then 1 else x | none => 1)) := le_max_left _ _
  unfold wholePeriod
  dsimp only
  omega

theorem one_le_periodCapacity (p : WindowModel F) (period : Ast F) : 1 ≤ p.periodCapacity period := by
  unfold periodCapacity
  split
  · split <;> exact one_le_wholePeriod _
  · exact one_le_wholePeriod _

theorem Planned.one_le_capacity {node : PlanNode F} (h : Planned p plan node) :
    1 ≤ node.capacity := by
  cases h <;> exact one_le_periodCapacity p _

/-- What binding `i` can be emitted as. The ring of an update belongs to a sum or mean of the plan, and its fallback can be
    printed. -/
inductive Emitted (p : WindowModel F) (i : Nat) (b : Binding F) : Emit F → Prop
  | skipped : Emitted p i b .skipped
  | copy (j) (hj : j < i) : Emitted p i b (.copy j)
  | pairMean (value period names) (hast : b.ast = .call "__cxpr_window_mean" [value, period] names)
      (hvalue : isWindowCall value = false) : Emitted p i b (.pairMean value period)
  | pairStddev (value period) : Emitted p i b (.pairStddev value period)
  | rolling (j node) (hnode : p.plan[j]? = some node) (hop : node.op ≠ .roc)
      (hsimple : node.child = none → (p.depth node.value).isSome)
      (hnested : ∀ c roc, node.child = some c → p.plan[c]? = some roc →
        (p.isStatic roc.period roc.capacity && p.isStatic node.period node.capacity) || (p.depth roc.value).isSome) :
    Emitted p i b (.rolling j)
  | midpoint (high low period) (hmid : midpoint? b.ast = some (high, low, period)) : Emitted p i b (.midpoint high low period)
  | loop (name op value period names) (hast : b.ast = .call name [value, period] names) (hop : reduce? name = some op)
      (hvalue : isWindowCall value = false) : Emitted p i b (.loop op value period)
  | garbled : Emitted p i b .garbled
  | plain : Emitted p i b .plain

theorem emitSingle_emitted (p : WindowModel F) (i : Nat) (b : Binding F) : Emitted p i b (emitSingle b.ast) := by
  unfold emitSingle
  split
  · rename_i high low period hmid
    exact .midpoint high low period hmid
  · split
    · rename_i name value period names hast
      split
      · rename_i op hop
        split
        · exact .plain
        · rename_i hvalue
          exact .loop name op value period names hast hop (by simpa using hvalue)
      · exact .plain
    · exact .plain

theorem emitPlanned_emitted (p : WindowModel F) (i : Nat) (b : Binding F) : Emitted p i b (p.emitPlanned i b.ast) := by
  have hsingle := emitSingle_emitted p i b
  unfold emitPlanned
  split
  · exact hsingle
  · rename_i j hfind
    split
    · exact hsingle
    · rename_i node hnode
      split
      · exact hsingle
      · rename_i hop
        split
        · rename_i hchild
          split
          · rename_i hdepth
            exact .rolling j node hnode hop (fun _ => hdepth) fun c roc hc => nomatch hchild.symm.trans hc
          · exact hsingle
        · rename_i c hchild
          split
          · exact hsingle
          · rename_i roc hroc
            split
            · rename_i hemit
              refine .rolling j node hnode hop (fun hnone => nomatch hchild.symm.trans hnone) ?_
              intro c' roc' hc hroc'
              cases hchild.symm.trans hc
              cases hroc.symm.trans hroc'
              exact hemit
            · exact .garbled

omit [FloorRing F] in
theorem startsPair_eq_some {rest : List (Binding F)} {value period : Ast F}
    (h : startsPair b rest = some (value, period)) :
    isWindowCall value = false ∧ ∃ names, b.ast = .call "__cxpr_window_mean" [value, period] names := by
  unfold startsPair at h
  split at h
  · split at h
    · unfold pair? at h
      split at h
      · rename_i v q names v' _ _ heq _
        split at h
        · rename_i hsame
          cases h
          refine ⟨?_, names, heq⟩
          cases value with
          | call name args names =>
            cases v' <;> nomatch hsame
          | _ => rfl
        · nomatch h
      · nomatch h
    · nomatch h
  · nomatch h

omit [FloorRing F] in
theorem findCommon_mem {named : List (Nat × Ast F)} {j : Nat} (h : findCommon b named = some j) :
    ∃ ast, (j, ast) ∈ named := by
  unfold findCommon at h
  split at h
  · nomatch h
  · obtain ⟨⟨k, ast⟩, hfind, rfl⟩ := Option.map_eq_some_iff.mp h
    exact ⟨ast, List.mem_of_find?_eq_some hfind⟩

theorem emitFrom_emitted (p : WindowModel F) {bs : List (Binding F)} {i : Nat} {second : Option (Ast F × Ast F)}
    {named : List (Nat × Ast F)} (hnamed : ∀ entry ∈ named, entry.1 < i) {k : Nat} {e : Emit F}
    (h : (p.emitFrom i second named bs)[k]? = some e) : ∃ b, bs[k]? = some b ∧ Emitted p (i + k) b e := by
  induction bs generalizing i second named k with
  | nil =>
    rw [emitFrom] at h
    nomatch h
  | cons b rest ih =>
    have hlater : ∀ entry ∈ named, entry.1 < i + 1 := fun entry he => Nat.lt_succ_of_lt (hnamed entry he)
    have hadded : ∀ entry ∈ named ++ [(i, b.ast)], entry.1 < i + 1 := by
      intro entry he
      rcases List.mem_append.mp he with he | he
      · exact hlater entry he
      · cases List.mem_singleton.mp he
        exact Nat.lt_succ_self i
    -- the first emission is that of `b`, and the others come from the induction
    have hcons : ∀ {e₀ : Emit F} {second' : Option (Ast F × Ast F)} {named' : List (Nat × Ast F)}, Emitted p i b e₀ →
        (∀ entry ∈ named', entry.1 < i + 1) → (e₀ :: p.emitFrom (i + 1) second' named' rest)[k]? = some e →
        ∃ b', (b :: rest)[k]? = some b' ∧ Emitted p (i + k) b' e := by
      intro e₀ second' named' he₀ hnamed' hk
      cases k with
      | zero =>
        cases hk
        exact ⟨b, rfl, he₀⟩
      | succ k =>
        obtain ⟨b', hb', hemitted⟩ := ih hnamed' hk
        exact ⟨b', hb', by rwa [show i + (k + 1) = i + 1 + k by omega]⟩
    cases second with
    | some pair =>
      obtain ⟨value, period⟩ := pair
      rw [emitFrom] at h
      exact hcons (.pairStddev value period) hadded h
    | none =>
      rw [emitFrom] at h
      split at h
      · exact hcons .skipped hlater h
      · split at h
        · rename_i j hcommon
          obtain ⟨ast, hmem⟩ := findCommon_mem hcommon
          exact hcons (.copy j (hnamed _ hmem)) hadded h
        · split at h
          · rename_i value period hpair
            obtain ⟨hvalue, names, hast⟩ := startsPair_eq_some hpair
            exact hcons (.pairMean value period names hast hvalue) hadded h
          · refine hcons (emitPlanned_emitted p i b) ?_ h
            split
            · exact hlater
            · exact hadded

theorem emission_emitted (p : WindowModel F) {i : Nat} {e : Emit F} (h : p.emissions[i]? = some e) :
    ∃ b, p.bindings[i]? = some b ∧ Emitted p i b e := by
  obtain ⟨b, hb, hemitted⟩ := p.emitFrom_emitted (fun _ hentry => absurd hentry List.not_mem_nil) h
  exact ⟨b, hb, by rwa [Nat.zero_add] at hemitted⟩

end WindowModel

end Cxpr.Codegen
