import Cxpr.Codegen.WindowPlan
import Cxpr.Lib.Rolling
import Cxpr.Lib.SampleRing
import Mathlib.Algebra.Order.Field.Basic
import Mathlib.Algebra.Order.Floor.Ring
import Mathlib.Tactic.Ring

/-! The emitted windows at run time, beside the window functions of the interpreter (`src/timeseries.c`). A tick gives
    every expression of the model a value, and an expression has at an offset the value that it had so many ticks ago. -/

namespace Cxpr.Codegen

section
variable {F : Type} [Field F] [LinearOrder F] [FloorRing F]

/-- A tick: whether the guard on invalid input passes, and the values of the expressions. -/
structure WindowTurn (F : Type) where
  passes : Bool
  now : Ast F → Option F

/-- The value of an expression `k` ticks ago, in the ticks of a run with the latest one first. -/
def readAt (turns : List (WindowTurn F)) (ast : Ast F) (k : Nat) : Option F := turns[k]?.bind (·.now ast)

/-- The rate of change that the emitted code and `cxpr_timeseries_window_roc` compute. -/
def rocOf : Option F → Option F → Option F
  | none, _ => none
  | some _, none => some 0
  | some now, some prev => if |prev| ≤ tiny then some 0 else some ((now - prev) / prev * 100)

namespace Interpreter
open WindowModel (Reduce)

/-- `cxpr_timeseries_read_samples` with a minimum of 1. -/
def readSamples : Option F → Option Nat
  | none => none
  | some x =>
    let n := lround x
    if nano < |x - n| ∨ n < 1 then none else some n.toNat

/-- The locals of `cxpr_timeseries_window_agg_eval`. -/
structure Agg (F : Type) where
  sum : F
  sumsq : F
  extreme : F
  count : Nat

def aggStep (mode : Reduce) (read : Nat → Option F) (a : Agg F) (i : Nat) : Agg F :=
  match read i with
  | none => a
  | some x =>
    ⟨a.sum + x, a.sumsq + x * x,
      if a.count = 0 ∨ (mode = .highest ∧ a.extreme < x) ∨ (mode = .lowest ∧ x < a.extreme) then x else a.extreme,
      a.count + 1⟩

/-- `cxpr_timeseries_window_agg_eval`. -/
def windowAggEval (sqrt : F → F) (mode : Reduce) (n : Nat) (read : Nat → Option F) : F :=
  let a := (List.range n).foldl (aggStep mode read) ⟨0, 0, 0, 0⟩
  if a.count = 0 then 0
  else
    match mode with
    | .highest | .lowest => a.extreme
    | .mean => a.sum / a.count
    | .stddev =>
      let mean := a.sum / a.count
      let variance := a.sumsq / a.count - mean * mean
      sqrt (if 0 < variance then variance else 0)
    | .sum | .weightedMean => a.sum

/-- The loop body of `cxpr_timeseries_window_wma`, with the weighted sum and the sum of the weights. -/
def wmaStep (n : Nat) (read : Nat → Option F) (a : F × F) (i : Nat) : F × F :=
  match read i with
  | none => a
  | some x => (a.1 + x * ((n - i : Nat) : F), a.2 + ((n - i : Nat) : F))

def windowWma (n : Nat) (read : Nat → Option F) : F :=
  let a := (List.range n).foldl (wmaStep n read) (0, 0)
  if 0 < a.2 then a.1 / a.2 else 0

def reduceEval (sqrt : F → F) : Reduce → Nat → (Nat → Option F) → F
  | .weightedMean => windowWma
  | mode => windowAggEval sqrt mode

/-- The samples of a sum or mean: the value of an expression at each offset, for a rate of change by
    `cxpr_timeseries_window_roc`. -/
def samples? (read : Ast F → Nat → Option F) : Ast F → Option (Nat → Option F)
  | .call "__cxpr_window_roc" [x, period] _ =>
    (readSamples (read period 0)).map fun n k => rocOf (read x k) (read x (k + n))
  | value => some (read value)

def window? (sqrt : F → F) (read : Ast F → Nat → Option F) (mode : Reduce) (value period : Ast F) : Option F :=
  (readSamples (read period 0)).bind fun n =>
    if mode = .sum ∨ mode = .mean then (samples? read value).map (reduceEval sqrt mode n)
    else some (reduceEval sqrt mode n (read value))

def eval? (sqrt : F → F) (read : Ast F → Nat → Option F) : Ast F → Option F
  | .call name [value, period] _ => (WindowModel.reduce? name).bind fun mode => window? sqrt read mode value period
  | .binary .plus l r => (eval? sqrt read l).bind fun x => (eval? sqrt read r).map fun y => x + y
  | .binary .star (.number c) e => (eval? sqrt read e).map fun x => c * x
  | .binary .star e (.number c) => (eval? sqrt read e).map fun x => x * c
  | _ => none

end Interpreter

/-! ### The emitted code -/

structure Window (F : Type) where
  next : Nat
  count : Nat
  sum : F
  values : List (Option F)

/-- The emitted state: the windows of the plan nodes, and the values that the histories hold, the latest ones first. -/
structure WindowState (F : Type) where
  windows : List (Window F)
  past : List (WindowTurn F)

namespace WindowModel

/-- The bits of `cxpr_model_c_window_counter_type`. -/
def counterBits (p : WindowModel F) (capacity : Nat) : Nat := if 255 < capacity then p.bits else 8

/-- The statements from the load of `next` to the store of `sum`, with `_cx_count`. -/
def update (p : WindowModel F) (capacity : Nat) (v : Option F) (w : Window F) : Option (Window F × Nat) := do
  let old ← w.values[w.next]?
  let (sum, count) := match old with
    | none => (w.sum, w.count)
    | some x => (w.sum - x, if 0 < w.count then w.count - 1 else w.count)
  let (sum, count) := match v with
    | none => (sum, count)
    | some x => (sum + x, (count + 1) % 2 ^ p.bits)
  some (⟨(w.next + 1) % 2 ^ p.bits % capacity % 2 ^ p.counterBits capacity, count % 2 ^ p.counterBits capacity, sum,
    w.values.set w.next v⟩, count)

def aggregate (op : PlanOp) (sum : F) (count : Nat) : F :=
  if count = 0 then 0 else match op with | .mean => sum / count | _ => sum

/-- `cxpr_model_c_emit_dynamic_history_value`. -/
def dynamicValue (p : WindowModel F) (turns : List (WindowTurn F)) (ast : Ast F) (k : Nat) : Option F :=
  match p.depth ast with
  | none => none
  | some depth => if k = 0 then readAt turns ast 0 else if k ≤ depth then readAt turns ast k else none

def fallbackBody (read : Nat → Option F) (a : F × Nat) (i : Nat) : F × Nat :=
  match read i with
  | none => a
  | some x => (a.1 + x, a.2 + 1)

def fallback (op : PlanOp) (limit : Nat) (read : Nat → Option F) : F :=
  let a := (List.range limit).foldl (fallbackBody read) (0, 0)
  aggregate op a.1 a.2

def sampleOf (p : WindowModel F) (turns : List (WindowTurn F)) (node : PlanNode F) : Option F :=
  match node.child.bind (p.plan[·]?) with
  | none => readAt turns node.value 0
  | some roc => rocOf (readAt turns roc.value 0) (readAt turns roc.value (roc.capacity % 2 ^ 32))

def rollingValue (p : WindowModel F) (turns : List (WindowTurn F)) (node : PlanNode F) (w : Window F) (count : Nat) : Option F :=
  match node.child.bind (p.plan[·]?) with
  | none =>
    if p.isStatic node.period node.capacity then some (aggregate node.op w.sum count)
    else
      (p.periodLimit node.period node.capacity (readAt turns node.period 0)).map fun limit =>
        if limit = node.capacity then aggregate node.op w.sum count
        else fallback node.op limit (p.dynamicValue turns node.value)
  | some roc =>
    if p.isStatic roc.period roc.capacity && p.isStatic node.period node.capacity then some (aggregate node.op w.sum count)
    else
      (p.periodLimit roc.period roc.capacity (readAt turns roc.period 0)).bind fun rp =>
        (p.periodLimit node.period node.capacity (readAt turns node.period 0)).map fun ap =>
          if rp = roc.capacity ∧ ap = node.capacity then aggregate node.op w.sum count
          else fallback node.op ap fun i => rocOf (p.dynamicValue turns roc.value i) (p.dynamicValue turns roc.value (i + rp))

/-- A loop over a window: over the histories if all of `values` have one, and unrolled otherwise. -/
def windowLoop {A : Type} (p : WindowModel F) (turns : List (WindowTurn F)) (values : List (Ast F)) (capacity limit : Nat)
    (body : (Ast F → Nat → Option F) → A → Nat → A) (a : A) : A :=
  if values.all fun v => (p.depth v).isSome then (List.range limit).foldl (body (p.dynamicValue turns)) a
  else (List.range capacity).foldl (fun a i => if i < limit then body (readAt turns) a i else a) a

/-- The locals of the loops of `cxpr_model_c_emit_simple_window_binding`. -/
structure Locals (F : Type) where
  sum : F
  sumsq : F
  weightedSum : F
  weightSum : F
  extreme : F
  count : Nat

def simpleBody (op : Reduce) (limit : Nat) (value : Ast F) (read : Ast F → Nat → Option F) (a : Locals F) (i : Nat) : Locals F :=
  match read value i with
  | none => a
  | some x =>
    let weight : F := ((limit - i : Nat) : F)
    let extreme := if a.count = 0 then x else a.extreme
    let extreme := if op = .highest ∧ extreme < x then x else extreme
    let extreme := if op = .lowest ∧ x < extreme then x else extreme
    ⟨a.sum + x, a.sumsq + x * x, a.weightedSum + x * weight, a.weightSum + weight, extreme, a.count + 1⟩

def deviation (p : WindowModel F) (sum sumsq : F) (count : Nat) : F :=
  let mean := sum / count
  let variance := sumsq / count - mean * mean
  p.sqrt (if 0 < variance then variance else 0)

/-- The assignment of `cxpr_model_c_emit_simple_window_binding`. -/
def simpleResult (p : WindowModel F) (a : Locals F) : Reduce → F
  | .highest | .lowest => if a.count = 0 then 0 else a.extreme
  | .mean => if a.count = 0 then 0 else a.sum / a.count
  | .stddev => if a.count = 0 then 0 else p.deviation a.sum a.sumsq a.count
  | .weightedMean => if 0 < a.weightSum then a.weightedSum / a.weightSum else 0
  | .sum => if a.count = 0 then 0 else a.sum

/-- The loop body of `cxpr_model_c_emit_mean_stddev_bindings`, with the sum, the sum of squares and the number. -/
def pairBody (value : Ast F) (read : Ast F → Nat → Option F) (a : F × F × Nat) (i : Nat) : F × F × Nat :=
  match read value i with
  | none => a
  | some x => (a.1 + x, a.2.1 + x * x, a.2.2 + 1)

/-- The loop body of `cxpr_model_c_emit_midpoint_binding`, with the highest, the lowest and the number. -/
def midpointBody (high low : Ast F) (read : Ast F → Nat → Option F) (a : F × F × Nat) (i : Nat) : F × F × Nat :=
  match read high i, read low i with
  | some hi, some lo =>
    let highest := if a.2.2 = 0 then hi else a.1
    let lowest := if a.2.2 = 0 then lo else a.2.1
    (if highest < hi then hi else highest, if lo < lowest then lo else lowest, a.2.2 + 1)
  | _, _ => a

def loopLimit (p : WindowModel F) (turns : List (WindowTurn F)) (period : Ast F) : Option Nat :=
  clampPeriod (p.periodCapacity period) (readAt turns period 0)

def loopValue (p : WindowModel F) (turns : List (WindowTurn F)) : Emit F → Option F
  | .pairMean value period =>
    (p.loopLimit turns period).map fun limit =>
      let a := p.windowLoop turns [value] (p.periodCapacity period) limit (pairBody value) (0, 0, 0)
      if a.2.2 = 0 then 0 else a.1 / a.2.2
  | .pairStddev value period =>
    (p.loopLimit turns period).map fun limit =>
      let a := p.windowLoop turns [value] (p.periodCapacity period) limit (pairBody value) (0, 0, 0)
      if a.2.2 = 0 then 0 else p.deviation a.1 a.2.1 a.2.2
  | .midpoint high low period =>
    (p.loopLimit turns period).map fun limit =>
      let a := p.windowLoop turns [high, low] (p.periodCapacity period) limit (midpointBody high low) (0, 0, 0)
      if a.2.2 = 0 then 0 else (a.1 + a.2.1) * half
  | .loop op value period =>
    (p.loopLimit turns period).map fun limit =>
      p.simpleResult (p.windowLoop turns [value] (p.periodCapacity period) limit (simpleBody op limit value) ⟨0, 0, 0, 0, 0, 0⟩) op
  | _ => none

/-- The code of one binding: the windows after it, and the value that it assigns. Only a rolling update changes a
    window. -/
def assign (p : WindowModel F) (turns : List (WindowTurn F)) (windows : List (Window F)) (values : List (Option F)) :
    Emit F → Option (List (Window F) × Option F)
  | .rolling j => do
    let node ← p.plan[j]?
    let w ← windows[j]?
    let (w, count) ← p.update node.capacity (p.sampleOf turns node) w
    some (windows.set j w, p.rollingValue turns node w count)
  | .copy i => some (windows, values[i]?.join)
  | emit => some (windows, p.loopValue turns emit)

def assigns (p : WindowModel F) (turns : List (WindowTurn F)) :
    List (Emit F) → List (Window F) → List (Option F) → Option (List (Window F) × List (Option F))
  | [], windows, values => some (windows, values)
  | emit :: emits, windows, values => do
    let (windows, v) ← p.assign turns windows values emit
    p.assigns turns emits windows (values ++ [v])

/-- A tick, with the values that it assigns to the bindings. The guard returns before the first one. -/
def tick (p : WindowModel F) (turn : WindowTurn F) (s : WindowState F) : Option (WindowState F × List (Option F)) :=
  if p.guarded && !turn.passes then some (s, [])
  else do
    let (windows, values) ← p.assigns (turn :: s.past) p.emissions s.windows []
    some (⟨windows, turn :: s.past⟩, values)

def initWindows (p : WindowModel F) : List (Window F) :=
  p.plan.map fun node => ⟨0, 0, 0, if node.op = .roc then [] else List.replicate node.capacity none⟩

def run (p : WindowModel F) : List (WindowTurn F) → Option (WindowState F × List (Option F))
  | [] => some (⟨p.initWindows, []⟩, [])
  | turn :: turns => (p.run turns).bind fun (s, _) => p.tick turn s

end WindowModel

/-- A model as the compiler leaves it. The type of a window is a C type, so its size is a `size_t`. The depths are what
    `cxpr_model_window_collect_call` asks for: a history covers the windows over its expression. -/
structure CompiledWindows (F : Type) [Field F] [LinearOrder F] [FloorRing F] extends WindowModel F where
  sized : ∀ node ∈ toWindowModel.plan, 8 * node.capacity < 2 ^ bits
  deep : ∀ name value period names depth, .call name [value, period] names ∈ toWindowModel.calls →
    name ∈ WindowModel.windowFunctions → toWindowModel.depth value = some depth →
    toWindowModel.periodCapacity period ≤ depth + 1
  deepRoc : ∀ name x rocPeriod rocNames period names depth,
    .call name [.call "__cxpr_window_roc" [x, rocPeriod] rocNames, period] names ∈ toWindowModel.calls →
    name ∈ WindowModel.windowFunctions → toWindowModel.depth x = some depth →
    toWindowModel.periodCapacity period + toWindowModel.periodCapacity rocPeriod ≤ depth + 1

end

namespace WindowModel
open Rolling

section
variable {F : Type}

variable {capacity : Nat}

theorem capacity_lt_counter (p : WindowModel F) (hsized : 8 * capacity < 2 ^ p.bits) :
    capacity < 2 ^ p.counterBits capacity := by
  unfold counterBits
  split
  · omega
  · omega

variable [Field F]

/-- A window whose ring holds the last of `samples`, the newest one first, and NaN before them; its sum and its count are
    those of the ring, and of these samples. -/
structure Ring (capacity : Nat) (samples : List (Option F)) (w : Window F) : Prop where
  length : w.values.length = capacity
  holds : (⟨w.values, w.values.length, w.next⟩ : SampleRing (Option F)).Holds (samples ++ List.replicate capacity none)
  sum : w.sum = total w.values
  count : w.count = tally w.values
  lastSum : w.sum = total ((samples ++ List.replicate capacity none).take capacity)
  lastCount : w.count = tally ((samples ++ List.replicate capacity none).take capacity)

theorem ring_init (capacity : Nat) : Ring capacity [] (⟨0, 0, 0, List.replicate capacity none⟩ : Window F) where
  length := List.length_replicate
  holds := by
    rw [List.nil_append, List.length_replicate]
    exact SampleRing.holds_replicate _ _
  sum := (total_replicate_none _).symm
  count := (tally_replicate_none _).symm
  lastSum := by rw [List.nil_append, List.take_replicate, Nat.min_self, total_replicate_none]
  lastCount := by rw [List.nil_append, List.take_replicate, Nat.min_self, tally_replicate_none]

namespace Ring
variable {capacity : Nat} {samples : List (Option F)} {w : Window F}

theorem next_lt (h : Ring capacity samples w) (hpos : 0 < capacity) : w.next < capacity := by
  have hlength := h.length
  subst hlength
  exact h.holds.next hpos

theorem oldest (h : Ring capacity samples w) (hpos : 0 < capacity) :
    w.values[w.next]? = (samples ++ List.replicate capacity none)[capacity - 1]? := by
  have hnext := h.next_lt hpos
  have hlength := h.length
  have hnewest := h.holds.newest (capacity - 1)
  rw [List.getElem?_take_of_lt (by show capacity - 1 < w.values.length; omega), SampleRing.newest, if_pos (by show capacity - 1 < w.values.length; omega)] at hnewest
  rw [← hnewest]
  show _ = w.values[(w.next + w.values.length - 1 - (capacity - 1)) % w.values.length]?
  rw [hlength, show w.next + capacity - 1 - (capacity - 1) = w.next by omega, Nat.mod_eq_of_lt hnext]

theorem count_le (h : Ring capacity samples w) : w.count ≤ capacity := by
  rw [h.count, ← h.length]
  exact tally_le_length _

end Ring

theorem update_eq (p : WindowModel F) {w : Window F} {old v : Option F} (hnext : w.next + 1 < 2 ^ p.bits)
    (hold : w.values[w.next]? = some old) (hone : one old ≤ w.count) (hcount : w.count - one old + one v < 2 ^ p.bits) :
    p.update capacity v w =
      some (⟨(w.next + 1) % capacity % 2 ^ p.counterBits capacity, (w.count - one old + one v) % 2 ^ p.counterBits capacity,
        w.sum - term old + term v, w.values.set w.next v⟩, w.count - one old + one v) := by
  have hmod : (w.next + 1) % 2 ^ p.bits = w.next + 1 := Nat.mod_eq_of_lt hnext
  unfold update
  rw [hold, hmod]
  cases old with
  | none =>
    cases v with
    | none => simp [one, term]
    | some y =>
      have hfit : (w.count + 1) % 2 ^ p.bits = w.count + 1 := Nat.mod_eq_of_lt hcount
      simp [one, term, hfit]
  | some x =>
    have hpos : 0 < w.count := hone
    cases v with
    | none => simp [one, term, hpos]
    | some y =>
      have hfit : (w.count - 1 + 1) % 2 ^ p.bits = w.count - 1 + 1 := Nat.mod_eq_of_lt hcount
      simp [one, term, hpos, hfit]

theorem update_spec (p : WindowModel F) {samples : List (Option F)} {w : Window F} (hpos : 0 < capacity)
    (hsized : 8 * capacity < 2 ^ p.bits) (h : Ring capacity samples w) (v : Option F) :
    ∃ w', p.update capacity v w = some (w', w'.count) ∧ Ring capacity (v :: samples) w' := by
  have hnext := h.next_lt hpos
  have hlength := h.length
  have hcounter := p.capacity_lt_counter hsized
  obtain ⟨old, hold⟩ : ∃ old, w.values[w.next]? = some old := ⟨_, List.getElem?_eq_getElem (hlength ▸ hnext)⟩
  have hlast : (samples ++ List.replicate capacity none)[capacity - 1]? = some old := (h.oldest hpos).symm.trans hold
  have hset := tally_set hold v
  have hnone : tally (w.values.set w.next none) + one old = tally w.values := tally_set hold none
  have hle : tally (w.values.set w.next v) ≤ capacity := by
    rw [← hlength, ← List.length_set (a := v) (i := w.next)]
    exact tally_le_length _
  rw [← h.count] at hset hnone
  have hcount : w.count - one old + one v = tally (w.values.set w.next v) := by omega
  refine ⟨⟨(w.next + 1) % capacity, tally (w.values.set w.next v), w.sum - term old + term v, w.values.set w.next v⟩, ?_, ?_⟩
  · rw [p.update_eq (by omega) hold (by omega) (by omega), hcount,
      Nat.mod_eq_of_lt (Nat.lt_trans (Nat.mod_lt _ hpos) hcounter), Nat.mod_eq_of_lt (Nat.lt_of_le_of_lt hle hcounter)]
  · obtain ⟨n, rfl⟩ : ∃ n, capacity = n + 1 := ⟨capacity - 1, by omega⟩
    rw [Nat.add_sub_cancel] at hlast
    refine ⟨List.length_set.trans hlength, ?_, ?_, rfl, ?_, ?_⟩
    · have hpush := h.holds.push v
      rw [SampleRing.push, if_neg (by show w.values.length ≠ 0; omega), if_neg (Nat.lt_irrefl _)] at hpush
      show (⟨w.values.set w.next v, (w.values.set w.next v).length, (w.next + 1) % (n + 1)⟩ : SampleRing (Option F)).Holds _
      rw [List.length_set, List.cons_append]
      rw [← hlength]
      rw [← hlength] at hpush
      exact hpush
    · show w.sum - term old + term v = total (w.values.set w.next v)
      rw [total_set hold, h.sum]
    · show w.sum - term old + term v = _
      rw [List.cons_append, total_move hlast, h.lastSum]
    · show tally (w.values.set w.next v) = _
      have hmove := tally_move hlast v
      rw [← h.lastCount] at hmove
      rw [List.cons_append]
      omega

end

section
variable {F : Type} [Field F] [LinearOrder F] [FloorRing F]

/-- Whether a binding is emitted as an update of the ring of node `j`. -/
def Emit.updates (j : Nat) : Emit F → Bool
  | .rolling i => i == j
  | _ => false

/-- The number of bindings that are emitted as updates of the ring of node `j`. -/
def updates (p : WindowModel F) (j : Nat) : Nat := p.emissions.countP (Emit.updates j)

def after (p : WindowModel F) (turns : List (WindowTurn F)) (emits : List (Emit F)) (samples : Nat → List (Option F)) (j : Nat) :
    List (Option F) :=
  match p.plan[j]? with
  | some node => List.replicate (emits.countP (Emit.updates j)) (p.sampleOf turns node) ++ samples j
  | none => samples j

def Rings (p : WindowModel F) (samples : Nat → List (Option F)) (windows : List (Window F)) : Prop :=
  ∀ (j : Nat) (node : PlanNode F), p.plan[j]? = some node → node.op ≠ .roc →
    ∃ w, windows[j]? = some w ∧ Ring node.capacity (samples j) w

def Aimed (p : WindowModel F) (emit : Emit F) : Prop :=
  ∀ j, emit = .rolling j → ∃ node, p.plan[j]? = some node ∧ node.op ≠ .roc

theorem after_nil (p : WindowModel F) (turns : List (WindowTurn F)) (samples : Nat → List (Option F)) :
    p.after turns [] samples = samples := by
  funext j
  unfold after
  split <;> rfl

theorem after_cons (p : WindowModel F) (turns : List (WindowTurn F)) (emit : Emit F) (emits : List (Emit F))
    (samples : Nat → List (Option F)) :
    p.after turns (emit :: emits) samples = p.after turns emits (p.after turns [emit] samples) := by
  funext j
  unfold after
  cases p.plan[j]? with
  | none => rfl
  | some node =>
    have hcount : (emit :: emits).countP (Emit.updates j) = emits.countP (Emit.updates j) + [emit].countP (Emit.updates j) := by
      rw [← List.singleton_append, List.countP_append, Nat.add_comm]
    simp only [hcount, List.replicate_add, List.append_assoc]

variable {emit : Emit F}

theorem aimed_of_mem {p : WindowModel F} (h : emit ∈ p.emissions) : p.Aimed emit := by
  intro j hj
  obtain ⟨i, hi, rfl⟩ := List.mem_iff_getElem.mp h
  obtain ⟨b, _, hemitted⟩ := p.emission_emitted (List.getElem?_eq_some_iff.mpr ⟨hi, hj⟩)
  cases hemitted with
  | rolling _ node hnode hop => exact ⟨node, hnode, hop⟩

theorem assign_other (p : WindowModel F) (turns : List (WindowTurn F)) (windows : List (Window F)) (values : List (Option F)) (h : ∀ j, emit ≠ .rolling j) : ∃ v, p.assign turns windows values emit = some (windows, v) := by
  cases emit with
  | rolling j => exact absurd rfl (h j)
  | _ => exact ⟨_, rfl⟩

theorem after_other (p : WindowModel F) (turns : List (WindowTurn F)) (samples : Nat → List (Option F))
    (h : ∀ j, emit ≠ .rolling j) : p.after turns [emit] samples = samples := by
  funext j
  have hupdates : Emit.updates j emit = false := by
    cases emit with
    | rolling i => exact absurd rfl (h i)
    | _ => rfl
  unfold after
  split
  · rw [List.countP_cons_of_neg (by rw [hupdates]; exact Bool.false_ne_true), List.countP_nil]
    rfl
  · rfl

theorem assign_spec (p : CompiledWindows F) (turns : List (WindowTurn F)) (haimed : p.Aimed emit)
    {windows : List (Window F)} {samples : Nat → List (Option F)} (h : p.Rings samples windows) (values : List (Option F)) :
    ∃ windows' v, p.assign turns windows values emit = some (windows', v) ∧ p.Rings (p.after turns [emit] samples) windows' := by
  by_cases hrolling : ∃ j, emit = .rolling j
  · obtain ⟨j, rfl⟩ := hrolling
    obtain ⟨node, hnode, hop⟩ := haimed j rfl
    obtain ⟨w, hw, hring⟩ := h j node hnode hop
    have hmem : node ∈ p.plan := List.mem_of_getElem? hnode
    have hpos : 0 < node.capacity := (p.plannedAll_plan node hmem).one_le_capacity
    obtain ⟨w', hupdate, hring'⟩ := p.update_spec hpos (p.sized node hmem) hring (p.sampleOf turns node)
    refine ⟨windows.set j w', p.rollingValue turns node w' w'.count, ?_, fun i node' hnode' hop' => ?_⟩
    · simp only [assign, hnode, hw, hupdate, Option.bind_eq_bind, Option.bind_some]
    · by_cases hi : i = j
      · subst hi
        cases hnode.symm.trans hnode'
        refine ⟨w', List.getElem?_set_self (List.getElem?_eq_some_iff.mp hw).1, ?_⟩
        have hafter : p.after turns [.rolling i] samples i = p.sampleOf turns node :: samples i := by
          simp [after, hnode, Emit.updates]
        rwa [hafter]
      · obtain ⟨wi, hwi, hringi⟩ := h i node' hnode' hop'
        refine ⟨wi, (List.getElem?_set_ne (Ne.symm hi)).trans hwi, ?_⟩
        have hafter : p.after turns [.rolling j] samples i = samples i := by
          simp [after, hnode', Emit.updates, Ne.symm hi]
        rwa [hafter]
  · have hother : ∀ j, emit ≠ .rolling j := fun j hj => hrolling ⟨j, hj⟩
    obtain ⟨v, hassign⟩ := p.assign_other turns windows values hother
    exact ⟨windows, v, hassign, by rwa [p.after_other turns samples hother]⟩

theorem assigns_spec (p : CompiledWindows F) (turns : List (WindowTurn F)) {emits : List (Emit F)}
    (haimed : ∀ emit ∈ emits, p.Aimed emit) {windows : List (Window F)} {samples : Nat → List (Option F)}
    (h : p.Rings samples windows) (values : List (Option F)) :
    ∃ windows' vs, p.assigns turns emits windows values = some (windows', values ++ vs) ∧
      p.Rings (p.after turns emits samples) windows' ∧
      ∀ i emit, emits[i]? = some emit → ∃ before after' v, p.Rings (p.after turns (emits.take i) samples) before ∧
        p.assign turns before (values ++ vs.take i) emit = some (after', v) ∧ vs[i]? = some v := by
  induction emits generalizing windows samples values with
  | nil => exact ⟨windows, [], by rw [assigns, List.append_nil], by rwa [after_nil], fun i emit hi => nomatch hi⟩
  | cons emit emits ih =>
    obtain ⟨windows₁, v, hassign, hrings⟩ := assign_spec p turns (haimed emit List.mem_cons_self) h values
    obtain ⟨windows', vs, hassigns, hrings', heach⟩ :=
      ih (fun e he => haimed e (List.mem_cons_of_mem _ he)) hrings (values ++ [v])
    refine ⟨windows', v :: vs, ?_, ?_, fun i e hi => ?_⟩
    · simp only [assigns, hassign, Option.bind_eq_bind, Option.bind_some, hassigns, List.append_assoc, List.singleton_append]
    · rwa [after_cons]
    · cases i with
      | zero =>
        cases hi
        exact ⟨windows, windows₁, v, by rwa [List.take_zero, after_nil], by rwa [List.take_zero, List.append_nil], rfl⟩
      | succ i =>
        obtain ⟨before, after', v', hbefore, hstep, hv'⟩ := heach i e hi
        refine ⟨before, after', v', ?_, ?_, hv'⟩
        · rwa [List.take_succ_cons, after_cons]
        · rwa [List.append_assoc, List.singleton_append] at hstep

/-- The samples of a node whose ring gets `m` of them in every tick. -/
def pushed (p : WindowModel F) (node : PlanNode F) (m : Nat) : List (WindowTurn F) → List (Option F)
  | [] => []
  | turn :: turns => List.replicate m (p.sampleOf (turn :: turns) node) ++ p.pushed node m turns

def samplesOf (p : WindowModel F) (turns : List (WindowTurn F)) (j : Nat) : List (Option F) :=
  match p.plan[j]? with
  | some node => p.pushed node (p.updates j) turns
  | none => []

theorem samplesOf_eq {p : WindowModel F} {j : Nat} {node : PlanNode F} (h : p.plan[j]? = some node) (turns : List (WindowTurn F)) :
    p.samplesOf turns j = p.pushed node (p.updates j) turns := by
  unfold samplesOf
  rw [h]

theorem after_emissions (p : WindowModel F) (turn : WindowTurn F) (turns : List (WindowTurn F)) :
    p.after (turn :: turns) p.emissions (p.samplesOf turns) = p.samplesOf (turn :: turns) := by
  funext j
  unfold after samplesOf
  split
  · rfl
  · rfl

theorem rings_init (p : WindowModel F) : p.Rings (p.samplesOf []) p.initWindows := by
  intro j node hnode hop
  refine ⟨_, by rw [initWindows, List.getElem?_map, hnode]; rfl, ?_⟩
  rw [samplesOf_eq hnode]
  simp only [if_neg hop]
  exact ring_init node.capacity

theorem tick_spec (p : CompiledWindows F) {turn : WindowTurn F} (hpass : (p.guarded && !turn.passes) = false) {s : WindowState F}
    (h : p.Rings (p.samplesOf s.past) s.windows) :
    ∃ windows vs, p.tick turn s = some (⟨windows, turn :: s.past⟩, vs) ∧ p.Rings (p.samplesOf (turn :: s.past)) windows ∧
      ∀ i emit, p.emissions[i]? = some emit → ∃ before after' v,
        p.Rings (p.after (turn :: s.past) (p.emissions.take i) (p.samplesOf s.past)) before ∧
        p.assign (turn :: s.past) before (vs.take i) emit = some (after', v) ∧ vs[i]? = some v := by
  obtain ⟨windows, vs, hassigns, hrings, heach⟩ := assigns_spec p (turn :: s.past) (fun e he => aimed_of_mem he) h []
  rw [after_emissions] at hrings
  simp only [List.nil_append] at hassigns heach
  refine ⟨windows, vs, ?_, hrings, heach⟩
  simp only [tick, hpass, Bool.false_eq_true, ↓reduceIte, hassigns, Option.bind_eq_bind, Option.bind_some]

theorem run_spec (p : CompiledWindows F) (turns : List (WindowTurn F)) :
    ∃ s vs, p.run turns = some (s, vs) ∧ p.Rings (p.samplesOf s.past) s.windows ∧
      ((∀ turn ∈ turns, (p.guarded && !turn.passes) = false) → s.past = turns) := by
  induction turns with
  | nil => exact ⟨⟨p.initWindows, []⟩, [], rfl, p.rings_init, fun _ => rfl⟩
  | cons turn turns ih =>
    obtain ⟨s, vs, hrun, hrings, hpast⟩ := ih
    by_cases hpass : (p.guarded && !turn.passes) = false
    · obtain ⟨windows, vs', htick, hrings', _⟩ := tick_spec p hpass hrings
      refine ⟨⟨windows, turn :: s.past⟩, vs', ?_, hrings', fun hall => ?_⟩
      · rw [run, hrun, Option.bind_some]
        exact htick
      · rw [hpast fun t ht => hall t (List.mem_cons_of_mem _ ht)]
    · refine ⟨s, [], ?_, hrings, fun hall => absurd (hall turn List.mem_cons_self) hpass⟩
      rw [run, hrun, Option.bind_some]
      simp only [tick, eq_true_of_ne_false hpass, ↓reduceIte]

end

end WindowModel

end Cxpr.Codegen
