import Cxpr.Codegen.Window
import Mathlib.Algebra.Order.Floor.Ring
import Mathlib.Algebra.Order.Field.Basic
import Mathlib.Data.Rat.Floor
import Mathlib.Tactic.NormNum
import Mathlib.Tactic.Linarith

/-! The emitted windows give what the interpreter computes over the samples: the rolling updates by the samples that
    their rings hold, the loops by the same reads. -/

namespace Cxpr.Codegen.WindowModel
open Rolling Interpreter

section
variable {F : Type} [Field F] [LinearOrder F]

def PlanOp.reduce : PlanOp → Reduce
  | .mean => .mean
  | _ => .sum

theorem foldl_aggStep (mode : Reduce) (read : Nat → Option F) (l : List Nat) (a : Agg F) :
    (l.foldl (aggStep mode read) a).sum = a.sum + total (l.map read) ∧
      (l.foldl (aggStep mode read) a).count = a.count + tally (l.map read) := by
  induction l generalizing a with
  | nil => simp [total, tally]
  | cons i l ih =>
    obtain ⟨hsum, hcount⟩ := ih (aggStep mode read a i)
    rw [List.foldl_cons, hsum, hcount, List.map_cons, total_cons, tally_cons]
    unfold aggStep
    cases read i with
    | none => simp [term, one]
    | some x =>
      simp only [term, one, Option.getD_some, Option.isSome_some, Bool.toNat_true]
      exact ⟨by ring, by omega⟩

theorem reduceEval_aggregate (sqrt : F → F) (op : PlanOp) (n : Nat) (read : Nat → Option F) :
    reduceEval sqrt op.reduce n read =
      aggregate op (total ((List.range n).map read)) (tally ((List.range n).map read)) := by
  have hmode : ∀ mode, (mode = .sum ∨ mode = .mean) → windowAggEval sqrt mode n read =
      if tally ((List.range n).map read) = 0 then 0
      else if mode = .mean then total ((List.range n).map read) / (tally ((List.range n).map read) : F)
      else total ((List.range n).map read) := by
    intro mode hmode
    obtain ⟨hsum, hcount⟩ := foldl_aggStep mode read (List.range n) ⟨0, 0, 0, 0⟩
    rw [zero_add] at hsum
    rw [Nat.zero_add] at hcount
    unfold windowAggEval
    dsimp only
    rw [hsum, hcount]
    obtain rfl | rfl := hmode <;> rfl
  cases op with
  | mean => exact hmode .mean (.inr rfl)
  | sum => exact hmode .sum (.inl rfl)
  | roc => exact hmode .sum (.inl rfl)

omit [LinearOrder F] in
theorem foldl_fallbackBody (read : Nat → Option F) (l : List Nat) (a : F × Nat) :
    l.foldl (fallbackBody read) a = (a.1 + total (l.map read), a.2 + tally (l.map read)) := by
  induction l generalizing a with
  | nil => simp [total, tally]
  | cons i l ih =>
    rw [List.foldl_cons, ih, List.map_cons, total_cons, tally_cons]
    unfold fallbackBody
    cases read i with
    | none => simp [term, one]
    | some x =>
      simp only [term, one, Option.getD_some, Option.isSome_some, Bool.toNat_true, Prod.mk.injEq]
      exact ⟨by ring, by omega⟩

theorem fallback_eq (sqrt : F → F) (op : PlanOp) (limit : Nat) (read : Nat → Option F) :
    fallback op limit read = reduceEval sqrt op.reduce limit read := by
  rw [reduceEval_aggregate, fallback, foldl_fallbackBody]
  simp only [zero_add]

omit [Field F] [LinearOrder F] in
theorem take_eq_map_read (samples : List (Option F)) (n : Nat) :
    (samples ++ List.replicate n none).take n = (List.range n).map fun k => samples[k]?.join := by
  refine List.ext_getElem? fun k => ?_
  by_cases hk : k < n
  · rw [List.getElem?_take_of_lt hk, List.getElem?_map, List.getElem?_range hk, Option.map_some]
    by_cases hs : k < samples.length
    · rw [List.getElem?_append_left hs, List.getElem?_eq_getElem hs]
      rfl
    · rw [List.getElem?_append_right (Nat.not_lt.mp hs), List.getElem?_replicate_of_lt (by omega),
        List.getElem?_eq_none_iff.mpr (Nat.not_lt.mp hs)]
      rfl
  · rw [List.getElem?_take_eq_none (Nat.not_lt.mp hk), List.getElem?_eq_none_iff.mpr (by simpa using hk)]

theorem Ring.aggregate_eq {capacity : Nat} {samples : List (Option F)} {w : Window F} (h : Ring capacity samples w)
    (sqrt : F → F) (op : PlanOp) :
    aggregate op w.sum w.count = reduceEval sqrt op.reduce capacity fun k => samples[k]?.join := by
  rw [reduceEval_aggregate, ← take_eq_map_read, ← h.lastSum, ← h.lastCount]

theorem foldl_pairBody (mode : Reduce) (value : Ast F) (read : Ast F → Nat → Option F) (l : List Nat) {a : F × F × Nat} {b : Agg F}
    (h : a = (b.sum, b.sumsq, b.count)) :
    l.foldl (pairBody value read) a =
      ((l.foldl (aggStep mode (read value)) b).sum, (l.foldl (aggStep mode (read value)) b).sumsq,
        (l.foldl (aggStep mode (read value)) b).count) := by
  induction l generalizing a b with
  | nil => exact h
  | cons i l ih =>
    rw [List.foldl_cons, List.foldl_cons]
    refine ih ?_
    subst h
    unfold pairBody aggStep
    cases read value i <;> rfl

omit [Field F] in
theorem extreme_eq (op : Reduce) (count : Nat) (extreme x : F) :
    (let e := if count = 0 then x else extreme
     let e := if op = .highest ∧ e < x then x else e
     if op = .lowest ∧ x < e then x else e) =
      if count = 0 ∨ (op = .highest ∧ extreme < x) ∨ (op = .lowest ∧ x < extreme) then x else extreme := by
  by_cases hcount : count = 0
  · simp [hcount]
  · cases op <;> simp [hcount]

def Locals.Match (l : Locals F) (a : Agg F) (w : F × F) : Prop :=
  l.sum = a.sum ∧ l.sumsq = a.sumsq ∧ l.extreme = a.extreme ∧ l.count = a.count ∧ (l.weightedSum, l.weightSum) = w

theorem foldl_simpleBody (op : Reduce) (limit : Nat) (value : Ast F) (read : Ast F → Nat → Option F) (l : List Nat)
    {locals : Locals F} {a : Agg F} {w : F × F} (h : locals.Match a w) :
    (l.foldl (simpleBody op limit value read) locals).Match (l.foldl (aggStep op (read value)) a)
      (l.foldl (wmaStep limit (read value)) w) := by
  induction l generalizing locals a w with
  | nil => exact h
  | cons i l ih =>
    rw [List.foldl_cons, List.foldl_cons, List.foldl_cons]
    refine ih ?_
    obtain ⟨hsum, hsumsq, hextreme, hcount, hw⟩ := h
    subst hw
    unfold simpleBody aggStep wmaStep
    cases read value i with
    | none => exact ⟨hsum, hsumsq, hextreme, hcount, rfl⟩
    | some x =>
      refine ⟨by rw [hsum], by rw [hsumsq], ?_, by rw [hcount], rfl⟩
      have heq := extreme_eq op locals.count locals.extreme x
      dsimp only at heq ⊢
      rw [heq, hextreme, hcount]

theorem foldl_midpointBody (high low : Ast F) (read : Ast F → Nat → Option F) (l : List Nat)
    (hboth : ∀ i ∈ l, (read high i).isSome = (read low i).isSome) {a : F × F × Nat} {h' l' : Agg F}
    (h : a = (h'.extreme, l'.extreme, h'.count) ∧ h'.count = l'.count) :
    (l.foldl (midpointBody high low read) a = ((l.foldl (aggStep .highest (read high)) h').extreme,
        (l.foldl (aggStep .lowest (read low)) l').extreme, (l.foldl (aggStep .highest (read high)) h').count)) ∧
      (l.foldl (aggStep .highest (read high)) h').count = (l.foldl (aggStep .lowest (read low)) l').count := by
  induction l generalizing a h' l' with
  | nil => exact h
  | cons i l ih =>
    rw [List.foldl_cons, List.foldl_cons, List.foldl_cons]
    refine ih (fun j hj => hboth j (List.mem_cons_of_mem _ hj)) ?_
    have hi := hboth i List.mem_cons_self
    obtain ⟨rfl, hcount⟩ := h
    unfold midpointBody aggStep
    cases hhigh : read high i with
    | none =>
      rw [hhigh] at hi
      cases hlow : read low i with
      | none => exact ⟨rfl, hcount⟩
      | some lo => rw [hlow] at hi; nomatch hi
    | some hi' =>
      rw [hhigh] at hi
      cases hlow : read low i with
      | none => rw [hlow] at hi; nomatch hi
      | some lo =>
        have hmax := extreme_eq .highest h'.count h'.extreme hi'
        have hmin := extreme_eq .lowest l'.count l'.extreme lo
        simp only [true_and, false_and, reduceCtorEq, ↓reduceIte, false_or, or_false] at hmax hmin ⊢
        rw [hmax, ← hmin, hcount]
        exact ⟨rfl, rfl⟩

end

section
variable {F : Type}

theorem dynamicValue_eq {p : WindowModel F} {turns : List (WindowTurn F)} {ast : Ast F} {depth k : Nat}
    (hdepth : p.depth ast = some depth) (hk : k ≤ depth) : p.dynamicValue turns ast k = readAt turns ast k := by
  unfold dynamicValue
  rw [hdepth]
  simp only [if_pos hk]
  split
  · rename_i hzero
    rw [hzero]
  · rfl

theorem windowLoop_eq {A : Type} (p : WindowModel F) (turns : List (WindowTurn F)) {values : List (Ast F)} {capacity limit : Nat}
    (hle : limit ≤ capacity) (hdeep : ∀ v ∈ values, ∀ depth, p.depth v = some depth → capacity ≤ depth + 1)
    {body : (Ast F → Nat → Option F) → A → Nat → A}
    (hbody : ∀ (read read' : Ast F → Nat → Option F) a i, (∀ v ∈ values, read v i = read' v i) → body read a i = body read' a i)
    (a : A) : p.windowLoop turns values capacity limit body a = (List.range limit).foldl (body (readAt turns)) a := by
  unfold windowLoop
  split
  · rename_i hall
    refine List.foldl_ext _ _ a fun b i hi => hbody _ _ b i fun v hv => ?_
    obtain ⟨depth, hdepth⟩ := Option.isSome_iff_exists.mp (List.all_eq_true.mp hall v hv)
    have hcovers := hdeep v hv depth hdepth
    have hlt := List.mem_range.mp hi
    exact dynamicValue_eq hdepth (by omega)
  · obtain ⟨rest, rfl⟩ := Nat.exists_eq_add_of_le hle
    rw [List.range_add, List.foldl_append, List.foldl_map]
    have hfirst : (List.range limit).foldl (fun a i => if i < limit then body (readAt turns) a i else a) a =
        (List.range limit).foldl (body (readAt turns)) a :=
      List.foldl_ext _ _ a fun b i hi => if_pos (List.mem_range.mp hi)
    rw [hfirst]
    have hrest : ∀ (l : List Nat) (b : A), l.foldl (fun b i => if limit + i < limit then body (readAt turns) b (limit + i) else b) b = b := by
      intro l
      induction l with
      | nil => exact fun b => rfl
      | cons i l ih =>
        intro b
        rw [List.foldl_cons, if_neg (by omega), ih]
    exact hrest _ _

theorem readAt_drop (turns : List (WindowTurn F)) (k : Nat) (ast : Ast F) (m : Nat) :
    readAt (turns.drop k) ast m = readAt turns ast (k + m) := by
  unfold readAt
  rw [List.getElem?_drop]

theorem readAt_of_le {turns : List (WindowTurn F)} {k : Nat} (h : turns.length ≤ k) (ast : Ast F) : readAt turns ast k = none := by
  rw [readAt, List.getElem?_eq_none_iff.mpr h]
  rfl

end

section
variable {F : Type} [Field F] [LinearOrder F] [FloorRing F]

theorem getElem?_pushed (p : WindowModel F) (node : PlanNode F) (turns : List (WindowTurn F)) (k : Nat) :
    (p.pushed node 1 turns)[k]? = if k < turns.length then some (p.sampleOf (turns.drop k) node) else none := by
  induction turns generalizing k with
  | nil => rfl
  | cons turn turns ih =>
    cases k with
    | zero => rfl
    | succ k =>
      have hnext : (p.pushed node 1 (turn :: turns))[k + 1]? = (p.pushed node 1 turns)[k]? := rfl
      rw [hnext, ih, List.length_cons, List.drop_succ_cons]
      by_cases hk : k < turns.length
      · rw [if_pos hk, if_pos (Nat.succ_lt_succ hk)]
      · rw [if_neg hk, if_neg (by omega)]

variable {p : WindowModel F} {node : PlanNode F} {turns : List (WindowTurn F)} {period value high low ast : Ast F}
variable {sqrt : F → F} {read read' : Ast F → Nat → Option F} {op : PlanOp} {names : List (Option String)}
variable {w : Window F} {name : String} {b : Binding F}

theorem join_pushed_simple (hchild : node.child = none) (turns : List (WindowTurn F)) (k : Nat) :
    (p.pushed node 1 turns)[k]?.join = readAt turns node.value k := by
  rw [getElem?_pushed]
  split
  · simp only [Option.join_some, sampleOf, hchild, Option.bind_none, readAt_drop, Nat.add_zero]
  · rename_i hk
    rw [readAt_of_le (Nat.not_lt.mp hk)]
    rfl

theorem join_pushed_roc {roc : PlanNode F} {c : Nat} (hchild : node.child = some c)
    (hroc : p.plan[c]? = some roc) (turns : List (WindowTurn F)) (k : Nat) :
    (p.pushed node 1 turns)[k]?.join = rocOf (readAt turns roc.value k) (readAt turns roc.value (k + roc.capacity % 2 ^ 32)) := by
  rw [getElem?_pushed]
  split
  · simp only [Option.join_some, sampleOf, hchild, Option.bind_some, hroc, readAt_drop, Nat.add_zero]
  · rename_i hk
    rw [readAt_of_le (Nat.not_lt.mp hk)]
    rfl

theorem readSamples_eq_some {x : Option F} {n : Nat} (h : readSamples x = some n) :
    ∃ y, x = some y ∧ lround y = n ∧ 1 ≤ n := by
  cases x with
  | none => nomatch h
  | some y =>
    unfold readSamples at h
    dsimp only at h
    split at h
    · nomatch h
    · rename_i hbad
      simp only [not_or, not_lt] at hbad
      have hn : (lround y).toNat = n := Option.some.inj h
      have hone : 1 ≤ lround y := hbad.2
      exact ⟨y, rfl, by omega, by omega⟩

/-- The period of a tick is at most the capacity, and an `int`. -/
def Within (turns : List (WindowTurn F)) (period : Ast F) (capacity : Nat) : Prop :=
  ∀ n, readSamples (readAt turns period 0) = some n → n ≤ capacity ∧ n ≤ 2147483647

/-- Where the generator takes the period for a constant, it is the period of the tick. -/
def Fixed (p : WindowModel F) (turns : List (WindowTurn F)) (period : Ast F) (capacity : Nat) : Prop :=
  p.isStatic period capacity = true → ∀ n, readSamples (readAt turns period 0) = some n → n = capacity

theorem clampPeriod_eq {x : Option F} {n capacity : Nat} (h : readSamples x = some n) (hle : n ≤ capacity) (hint : n ≤ 2147483647) :
    clampPeriod capacity x = some n := by
  obtain ⟨y, rfl, hround, hone⟩ := readSamples_eq_some h
  have hclamp : max 1 (min (capacity : Int) (lround y)) = n := by omega
  unfold clampPeriod
  dsimp only
  rw [hclamp, if_pos (by omega), Int.toNat_natCast]

variable [IsStrictOrderedRing F]

theorem lround_one : lround (1 : F) = 1 := by
  have hfloor : ⌊(1 : F) + 1 / 2⌋ = 1 := by
    rw [Int.floor_eq_iff]
    constructor <;> norm_num
  rw [lround, if_pos zero_le_one, hfloor]

theorem eq_wholePeriod {x : F} {n : Nat} (h : readSamples (some x) = some n) (hle : n ≤ wholePeriod (some x)) :
    n = wholePeriod (some x) := by
  obtain ⟨y, hy, hround, hone⟩ := readSamples_eq_some h
  cases hy
  unfold wholePeriod at hle ⊢
  dsimp only at hle ⊢
  split at hle
  · rename_i hlt
    rw [lround_one] at hle
    rw [if_pos hlt, lround_one]
    simp only [max_self, Int.toNat_one] at hle ⊢
    omega
  · rename_i hge
    rw [if_neg hge, hround]
    omega

theorem periodLimit_eq {capacity n : Nat}
    (hwithin : Within turns period capacity) (hfixed : p.Fixed turns period capacity)
    (h : readSamples (readAt turns period 0) = some n) : p.periodLimit period capacity (readAt turns period 0) = some n := by
  obtain ⟨hle, hint⟩ := hwithin n h
  have hclamp := clampPeriod_eq h hle hint
  have hstatic : p.isStatic period capacity = true → n = capacity := fun hs => hfixed hs n h
  unfold periodLimit
  split
  · split
    · rename_i hs
      rw [hstatic hs]
    · split
      · rename_i name _ default _
        split
        · rename_i hdefault
          simp only [Bool.and_eq_true, beq_iff_eq, decide_eq_true_eq] at hdefault
          rw [hdefault.2] at h
          rw [← hdefault.1] at hle ⊢
          rw [← eq_wholePeriod h hle]
        · exact hclamp
      · exact hclamp
  · rename_i hparam
    split
    · rename_i default hdefault
      split
      · rename_i hwhole
        have hs : p.isStatic period capacity = true := by
          unfold isStatic
          split
          · rename_i name
            exact absurd rfl (hparam name)
          · rw [hdefault]
            exact hwhole
        rw [hstatic hs]
      · exact hclamp
    · exact hclamp

omit [FloorRing F] [IsStrictOrderedRing F] in
theorem reduceEval_congr (sqrt : F → F) (op : PlanOp) {n : Nat} {read read' : Nat → Option F} (h : ∀ k < n, read k = read' k) :
    reduceEval sqrt op.reduce n read = reduceEval sqrt op.reduce n read' := by
  have hmap : (List.range n).map read = (List.range n).map read' :=
    List.map_congr_left fun k hk => h k (List.mem_range.mp hk)
  rw [reduceEval_aggregate, reduceEval_aggregate, hmap]

omit [IsStrictOrderedRing F] in
theorem window?_eq_some {mode : Reduce} {v : F}
    (h : window? sqrt read mode value period = some v) :
    ∃ n samples, readSamples (read period 0) = some n ∧ v = reduceEval sqrt mode n samples ∧
      if mode = .sum ∨ mode = .mean then samples? read value = some samples else samples = read value := by
  obtain ⟨n, hn, h⟩ := Option.bind_eq_some_iff.mp h
  split at h
  · rename_i hmode
    obtain ⟨samples, hsamples, rfl⟩ := Option.map_eq_some_iff.mp h
    exact ⟨n, samples, hn, rfl, by rwa [if_pos hmode]⟩
  · rename_i hmode
    exact ⟨n, read value, hn, (Option.some.inj h).symm, by rw [if_neg hmode]⟩

omit [IsStrictOrderedRing F] in
theorem samples?_of_not_window (read : Ast F → Nat → Option F) (h : isWindowCall value = false) :
    samples? read value = some (read value) := by
  unfold samples?
  split
  · nomatch h
  · rfl

omit [Field F] [LinearOrder F] [FloorRing F] [IsStrictOrderedRing F] in
theorem name_mem_windowFunctions (op : PlanOp) : op.name ∈ windowFunctions := by
  cases op <;> decide

omit [IsStrictOrderedRing F] in
theorem eval?_planned (hop : op ≠ .roc) {v : F} (h : eval? sqrt read (.call op.name [value, period] names) = some v) :
    ∃ n samples, readSamples (read period 0) = some n ∧ samples? read value = some samples ∧
      v = reduceEval sqrt op.reduce n samples := by
  have hmode : op.reduce = .sum ∨ op.reduce = .mean := by cases op <;> decide
  have hreduce : reduce? op.name = some op.reduce := by
    cases op with
    | roc => exact absurd rfl hop
    | sum => rfl
    | mean => rfl
  rw [eval?, hreduce] at h
  obtain ⟨n, samples, hn, hv, hsamples⟩ := window?_eq_some h
  rw [if_pos hmode] at hsamples
  exact ⟨n, samples, hn, hsamples, hv⟩

theorem rollingValue_simple (p : CompiledWindows F) {origin : Option Nat} {v : F} (hop : op ≠ .roc)
    (hvalue : isWindowCall value = false) (hmem : .call op.name [value, period] names ∈ p.calls)
    (hdepth : (p.depth value).isSome) (hwithin : Within turns period (p.periodCapacity period))
    (hfixed : p.Fixed turns period (p.periodCapacity period))
    (hring : Ring (p.periodCapacity period)
      (p.pushed ⟨.call op.name [value, period] names, op, value, period, p.periodCapacity period, none, origin⟩ 1 turns) w)
    (heval : eval? p.sqrt (readAt turns) (.call op.name [value, period] names) = some v) :
    p.rollingValue turns ⟨.call op.name [value, period] names, op, value, period, p.periodCapacity period, none, origin⟩ w w.count =
      some v := by
  obtain ⟨n, samples, hn, hsamples, rfl⟩ := eval?_planned hop heval
  cases (samples?_of_not_window (readAt turns) hvalue).symm.trans hsamples
  -- the ring has the samples of as many ticks as the capacity
  have hrolled : aggregate op w.sum w.count = reduceEval p.sqrt op.reduce (p.periodCapacity period) (readAt turns value) := by
    rw [hring.aggregate_eq p.sqrt]
    exact reduceEval_congr p.sqrt op fun k _ => join_pushed_simple rfl turns k
  unfold rollingValue
  simp only [Option.bind_none]
  split
  · rename_i hstatic
    rw [hrolled, hfixed hstatic n hn]
  · rw [periodLimit_eq hwithin hfixed hn, Option.map_some]
    by_cases hcap : n = p.periodCapacity period
    · rw [if_pos hcap, hrolled, hcap]
    · obtain ⟨depth, hsome⟩ := Option.isSome_iff_exists.mp hdepth
      have hcovers := p.deep op.name value period names depth hmem (name_mem_windowFunctions op) hsome
      have hle := (hwithin n hn).1
      rw [if_neg hcap, fallback_eq p.sqrt]
      congr 1
      exact reduceEval_congr p.sqrt op fun k hk => dynamicValue_eq hsome (by omega)

theorem rollingValue_roc (p : CompiledWindows F) {x rocPeriod : Ast F}
    {rocNames : List (Option String)} {origin : Option Nat} {c : Nat} {roc : PlanNode F} {v : F} (hop : op ≠ .roc)
    (hmem : .call op.name [.call "__cxpr_window_roc" [x, rocPeriod] rocNames, period] names ∈ p.calls)
    (hchild : p.plan[c]? = some roc) (hx : roc.value = x) (hperiod : roc.period = rocPeriod)
    (hcapacity : roc.capacity = p.periodCapacity rocPeriod)
    (hemitted : (p.isStatic roc.period roc.capacity && p.isStatic period (p.periodCapacity period)) || (p.depth roc.value).isSome)
    (hwithin : Within turns period (p.periodCapacity period)) (hfixed : p.Fixed turns period (p.periodCapacity period))
    (hrocWithin : Within turns rocPeriod (p.periodCapacity rocPeriod)) (hrocFixed : p.Fixed turns rocPeriod (p.periodCapacity rocPeriod))
    (hring : Ring (p.periodCapacity period)
      (p.pushed ⟨.call op.name [.call "__cxpr_window_roc" [x, rocPeriod] rocNames, period] names, op, x, period,
        p.periodCapacity period, some c, origin⟩ 1 turns) w)
    (heval : eval? p.sqrt (readAt turns) (.call op.name [.call "__cxpr_window_roc" [x, rocPeriod] rocNames, period] names) = some v) :
    p.rollingValue turns ⟨.call op.name [.call "__cxpr_window_roc" [x, rocPeriod] rocNames, period] names, op, x, period,
      p.periodCapacity period, some c, origin⟩ w w.count = some v := by
  subst hx hperiod
  obtain ⟨n, samples, hn, hsamples, rfl⟩ := eval?_planned hop heval
  obtain ⟨m, hm, rfl⟩ := Option.map_eq_some_iff.mp hsamples
  have hint := (hrocWithin m hm).2
  -- the ring has the rates of change over the capacity of the rate
  have hrolled : m = roc.capacity → aggregate op w.sum w.count = reduceEval p.sqrt op.reduce (p.periodCapacity period)
      fun k => rocOf (readAt turns roc.value k) (readAt turns roc.value (k + m)) := by
    intro hcap
    rw [hring.aggregate_eq p.sqrt]
    refine reduceEval_congr p.sqrt op fun k _ => ?_
    rw [join_pushed_roc rfl hchild, ← hcap, Nat.mod_eq_of_lt (Nat.lt_of_le_of_lt hint (by decide))]
  unfold rollingValue
  simp only [Option.bind_some, hchild]
  split
  · rename_i hstatic
    simp only [Bool.and_eq_true] at hstatic
    have hcap : m = roc.capacity := by
      rw [hcapacity] at hstatic ⊢
      exact hrocFixed hstatic.1 m hm
    rw [hrolled hcap, hfixed hstatic.2 n hn]
  · rename_i hstatic
    have hrocLimit : p.periodLimit roc.period roc.capacity (readAt turns roc.period 0) = some m := by
      rw [hcapacity]
      exact periodLimit_eq hrocWithin hrocFixed hm
    rw [hrocLimit, periodLimit_eq hwithin hfixed hn]
    simp only [Option.bind_some, Option.map_some]
    by_cases hcaps : m = roc.capacity ∧ n = p.periodCapacity period
    · rw [if_pos hcaps, hrolled hcaps.1, hcaps.2]
    · have hsome : (p.depth roc.value).isSome = true := by
        simpa [hstatic] using hemitted
      obtain ⟨depth, hdepth⟩ := Option.isSome_iff_exists.mp hsome
      have hcovers := p.deepRoc op.name roc.value roc.period rocNames period names depth hmem (name_mem_windowFunctions op) hdepth
      have hle := (hwithin n hn).1
      have hrocLe := (hrocWithin m hm).1
      rw [if_neg hcaps, fallback_eq p.sqrt]
      congr 1
      refine reduceEval_congr p.sqrt op fun k hk => ?_
      rw [dynamicValue_eq hdepth (by omega), dynamicValue_eq hdepth (by omega)]

omit [IsStrictOrderedRing F] in
theorem eval?_call {mode : Reduce} {v : F} (hmode : reduce? name = some mode)
    (hvalue : isWindowCall value = false ∨ (mode ≠ .sum ∧ mode ≠ .mean))
    (h : eval? sqrt read (.call name [value, period] names) = some v) :
    ∃ n, readSamples (read period 0) = some n ∧ v = reduceEval sqrt mode n (read value) := by
  rw [eval?, hmode] at h
  obtain ⟨n, samples, hn, rfl, hsamples⟩ := window?_eq_some h
  split at hsamples
  · rename_i hsum
    rcases hvalue with hvalue | ⟨hne, hne'⟩
    · cases (samples?_of_not_window read hvalue).symm.trans hsamples
      exact ⟨n, hn, rfl⟩
    · exact absurd hsum (not_or.mpr ⟨hne, hne'⟩)
  · rw [hsamples]
    exact ⟨n, hn, rfl⟩

structure Loops (p : WindowModel F) (turns : List (WindowTurn F)) (values : List (Ast F)) (period : Ast F) : Prop where
  within : Within turns period (p.periodCapacity period)
  deep : ∀ v ∈ values, ∀ depth, p.depth v = some depth → p.periodCapacity period ≤ depth + 1

omit [IsStrictOrderedRing F] in
theorem Loops.windowLoop {values : List (Ast F)}
    (h : Loops p turns values period) {n : Nat} (hn : readSamples (readAt turns period 0) = some n) {A : Type}
    {body : (Ast F → Nat → Option F) → A → Nat → A}
    (hbody : ∀ (read read' : Ast F → Nat → Option F) a i, (∀ v ∈ values, read v i = read' v i) → body read a i = body read' a i)
    (a : A) :
    p.loopLimit turns period = some n ∧
      p.windowLoop turns values (p.periodCapacity period) n body a = (List.range n).foldl (body (readAt turns)) a := by
  obtain ⟨hle, hint⟩ := h.within n hn
  exact ⟨clampPeriod_eq hn hle hint, windowLoop_eq p turns hle h.deep hbody a⟩

omit [LinearOrder F] [FloorRing F] [IsStrictOrderedRing F] in
theorem pairBody_congr (value : Ast F) (a : F × F × Nat) (i : Nat)
    (h : ∀ v ∈ [value], read v i = read' v i) : pairBody value read a i = pairBody value read' a i := by
  unfold pairBody
  rw [h value List.mem_cons_self]

omit [FloorRing F] [IsStrictOrderedRing F] in
theorem simpleBody_congr (op : Reduce) (limit : Nat) (value : Ast F) (a : Locals F) (i : Nat)
    (h : ∀ v ∈ [value], read v i = read' v i) : simpleBody op limit value read a i = simpleBody op limit value read' a i := by
  unfold simpleBody
  rw [h value List.mem_cons_self]

omit [Field F] [FloorRing F] [IsStrictOrderedRing F] in
theorem midpointBody_congr (high low : Ast F) (a : F × F × Nat) (i : Nat)
    (h : ∀ v ∈ [high, low], read v i = read' v i) : midpointBody high low read a i = midpointBody high low read' a i := by
  unfold midpointBody
  rw [h high List.mem_cons_self, h low (List.mem_cons_of_mem _ List.mem_cons_self)]

omit [IsStrictOrderedRing F] in
theorem loopValue_pairMean (h : Loops p turns [value] period)
    {n : Nat} (hn : readSamples (readAt turns period 0) = some n) :
    p.loopValue turns (.pairMean value period) = some (reduceEval p.sqrt .mean n (readAt turns value)) := by
  obtain ⟨hlimit, hloop⟩ := h.windowLoop hn (fun read read' a i => pairBody_congr value a i) ((0, 0, 0) : F × F × Nat)
  simp only [loopValue, hlimit, Option.map_some, hloop]
  rw [foldl_pairBody .mean value (readAt turns) (List.range n) (b := ⟨0, 0, 0, 0⟩) rfl]
  rfl

omit [IsStrictOrderedRing F] in
theorem loopValue_pairStddev (h : Loops p turns [value] period)
    {n : Nat} (hn : readSamples (readAt turns period 0) = some n) :
    p.loopValue turns (.pairStddev value period) = some (reduceEval p.sqrt .stddev n (readAt turns value)) := by
  obtain ⟨hlimit, hloop⟩ := h.windowLoop hn (fun read read' a i => pairBody_congr value a i) ((0, 0, 0) : F × F × Nat)
  simp only [loopValue, hlimit, Option.map_some, hloop]
  rw [foldl_pairBody .stddev value (readAt turns) (List.range n) (b := ⟨0, 0, 0, 0⟩) rfl]
  rfl

omit [IsStrictOrderedRing F] in
theorem loopValue_loop {op : Reduce}
    (h : Loops p turns [value] period) {n : Nat} (hn : readSamples (readAt turns period 0) = some n) :
    p.loopValue turns (.loop op value period) = some (reduceEval p.sqrt op n (readAt turns value)) := by
  obtain ⟨hlimit, hloop⟩ := h.windowLoop hn (fun read read' a i => simpleBody_congr op n value a i)
    ⟨0, 0, 0, 0, 0, 0⟩
  simp only [loopValue, hlimit, Option.map_some, hloop]
  have hinit : Locals.Match (⟨0, 0, 0, 0, 0, 0⟩ : Locals F) ⟨0, 0, 0, 0⟩ (0, 0) := ⟨rfl, rfl, rfl, rfl, rfl⟩
  obtain ⟨hsum, hsumsq, hextreme, hcount, hweights⟩ := foldl_simpleBody op n value (readAt turns) (List.range n) hinit
  congr 1
  cases op with
  | weightedMean =>
    simp only [simpleResult, reduceEval, windowWma, ← hweights]
  | _ => simp only [simpleResult, reduceEval, windowAggEval, deviation, hsum, hsumsq, hextreme, hcount]

omit [IsStrictOrderedRing F] in
theorem loopValue_midpoint
    (h : Loops p turns [high, low] period) {n : Nat} (hn : readSamples (readAt turns period 0) = some n)
    (hboth : ∀ k < n, (readAt turns high k).isSome = (readAt turns low k).isSome) :
    p.loopValue turns (.midpoint high low period) =
      some ((reduceEval p.sqrt .highest n (readAt turns high) + reduceEval p.sqrt .lowest n (readAt turns low)) * (1 / 2)) := by
  obtain ⟨hlimit, hloop⟩ := h.windowLoop hn (fun read read' a i => midpointBody_congr high low a i) ((0, 0, 0) : F × F × Nat)
  simp only [loopValue, hlimit, Option.map_some, hloop]
  have hinit : ((0, 0, 0) : F × F × Nat) = ((⟨0, 0, 0, 0⟩ : Agg F).extreme, (⟨0, 0, 0, 0⟩ : Agg F).extreme,
      (⟨0, 0, 0, 0⟩ : Agg F).count) ∧ (⟨0, 0, 0, 0⟩ : Agg F).count = (⟨0, 0, 0, 0⟩ : Agg F).count := ⟨rfl, rfl⟩
  obtain ⟨hfold, hcount⟩ := foldl_midpointBody high low (readAt turns) (List.range n)
    (fun k hk => hboth k (List.mem_range.mp hk)) hinit
  rw [hfold]
  simp only [reduceEval, windowAggEval, ← hcount]
  split
  · rw [add_zero, zero_mul]
  · rfl

inductive HighLow (high low period : Ast F) : Ast F → Prop
  | highFirst (names names') : HighLow high low period
    (.binary .plus (.call "__cxpr_window_highest" [high, period] names) (.call "__cxpr_window_lowest" [low, period] names'))
  | lowFirst (names names') : HighLow high low period
    (.binary .plus (.call "__cxpr_window_lowest" [low, period] names') (.call "__cxpr_window_highest" [high, period] names))

inductive Midpoint (high low period : Ast F) : Ast F → Prop
  | halfFirst (sum) (h : HighLow high low period sum) : Midpoint high low period (.binary .star (.number (1 / 2)) sum)
  | halfLast (sum) (h : HighLow high low period sum) : Midpoint high low period (.binary .star sum (.number (1 / 2)))

/-- The bindings whose emitted window is right in a tick: no other binding updates the ring, the call that it was planned
    for is the call of the binding, and the periods of the tick fit. A copy is right if it copies the same call, and a
    midpoint if its two samples are missing together. -/
inductive Regular (p : WindowModel F) (turns : List (WindowTurn F)) : Nat → Prop
  | copy {i j b b'} (hemit : p.emissions[i]? = some (.copy j)) (hb : p.bindings[i]? = some b) (hb' : p.bindings[j]? = some b')
      (hast : b'.ast = b.ast) (hj : Regular p turns j) : Regular p turns i
  | rolling {i j b node} (hemit : p.emissions[i]? = some (.rolling j)) (hb : p.bindings[i]? = some b)
      (hnode : p.plan[j]? = some node) (hast : node.ast = b.ast) (hone : p.updates j = 1)
      (hwithin : Within turns node.period node.capacity) (hfixed : p.Fixed turns node.period node.capacity)
      (hroc : ∀ c roc, node.child = some c → p.plan[c]? = some roc →
        Within turns roc.period roc.capacity ∧ p.Fixed turns roc.period roc.capacity ∧
          ∃ name names, node.ast = .call name [roc.ast, node.period] names) : Regular p turns i
  | pairMean {i value period} (hemit : p.emissions[i]? = some (.pairMean value period))
      (hwithin : Within turns period (p.periodCapacity period)) : Regular p turns i
  | pairStddev {i value period names b} (hemit : p.emissions[i]? = some (.pairStddev value period)) (hb : p.bindings[i]? = some b)
      (hast : b.ast = .call "__cxpr_window_stddev" [value, period] names)
      (hwithin : Within turns period (p.periodCapacity period)) : Regular p turns i
  | midpoint {i high low period b} (hemit : p.emissions[i]? = some (.midpoint high low period)) (hb : p.bindings[i]? = some b)
      (hast : Midpoint high low period b.ast) (hwithin : Within turns period (p.periodCapacity period))
      (hboth : ∀ n, readSamples (readAt turns period 0) = some n →
        ∀ k < n, (readAt turns high k).isSome = (readAt turns low k).isSome) : Regular p turns i
  | loop {i op value period} (hemit : p.emissions[i]? = some (.loop op value period))
      (hwithin : Within turns period (p.periodCapacity period)) : Regular p turns i

omit [LinearOrder F] [FloorRing F] [IsStrictOrderedRing F] [Field F] in
theorem mem_calls {i : Nat} (hb : p.bindings[i]? = some b)
    (h : ast ∈ visited b.ast) : ast ∈ p.calls :=
  List.mem_flatMap.mpr ⟨b, List.mem_of_getElem? hb, h⟩

omit [LinearOrder F] [FloorRing F] [IsStrictOrderedRing F] [Field F] in
theorem mem_visited_call (name : String) (args : List (Ast F)) (names : List (Option String)) :
    .call name args names ∈ visited (.call name args names) := by
  rw [visited]
  exact List.mem_cons_self

theorem mem_windowFunctions {op : Reduce} (h : reduce? name = some op) : name ∈ windowFunctions := by
  unfold reduce? at h
  split at h <;> first | decide | nomatch h

omit [IsStrictOrderedRing F] in
theorem eval?_highLow {v : F}
    (hast : HighLow high low period ast) (h : eval? sqrt read ast = some v) :
    ∃ n, readSamples (read period 0) = some n ∧ v = reduceEval sqrt .highest n (read high) + reduceEval sqrt .lowest n (read low) := by
  cases hast with
  | highFirst names names' =>
    rw [eval?] at h
    obtain ⟨x, hx, h⟩ := Option.bind_eq_some_iff.mp h
    obtain ⟨y, hy, rfl⟩ := Option.map_eq_some_iff.mp h
    obtain ⟨n, hn, rfl⟩ := eval?_call rfl (.inr ⟨by decide, by decide⟩) hx
    obtain ⟨m, hm, rfl⟩ := eval?_call rfl (.inr ⟨by decide, by decide⟩) hy
    cases hn.symm.trans hm
    exact ⟨n, hn, rfl⟩
  | lowFirst names names' =>
    rw [eval?] at h
    obtain ⟨x, hx, h⟩ := Option.bind_eq_some_iff.mp h
    obtain ⟨y, hy, rfl⟩ := Option.map_eq_some_iff.mp h
    obtain ⟨n, hn, rfl⟩ := eval?_call rfl (.inr ⟨by decide, by decide⟩) hx
    obtain ⟨m, hm, rfl⟩ := eval?_call rfl (.inr ⟨by decide, by decide⟩) hy
    cases hn.symm.trans hm
    exact ⟨n, hn, add_comm _ _⟩

omit [IsStrictOrderedRing F] in
theorem eval?_midpoint {v : F}
    (hast : Midpoint high low period ast) (h : eval? sqrt read ast = some v) :
    ∃ n, readSamples (read period 0) = some n ∧
      v = (reduceEval sqrt .highest n (read high) + reduceEval sqrt .lowest n (read low)) * (1 / 2) := by
  cases hast with
  | halfFirst sum hsum =>
    rw [eval?] at h
    obtain ⟨x, hx, rfl⟩ := Option.map_eq_some_iff.mp h
    obtain ⟨n, hn, rfl⟩ := eval?_highLow hsum hx
    exact ⟨n, hn, mul_comm _ _⟩
  | halfLast sum hsum =>
    have hstar : eval? sqrt read (.binary .star sum (.number (1 / 2))) = (eval? sqrt read sum).map fun x => x * (1 / 2) := by
      cases hsum <;> rfl
    rw [hstar] at h
    obtain ⟨x, hx, rfl⟩ := Option.map_eq_some_iff.mp h
    obtain ⟨n, hn, rfl⟩ := eval?_highLow hsum hx
    exact ⟨n, hn, rfl⟩

omit [Field F] [LinearOrder F] [FloorRing F] [IsStrictOrderedRing F] in
theorem countP_take_eq_zero {emits : List (Emit F)} {i j : Nat} (h : emits[i]? = some (.rolling j))
    (hone : emits.countP (Emit.updates j) = 1) : (emits.take i).countP (Emit.updates j) = 0 := by
  obtain ⟨hi, heq⟩ := List.getElem?_eq_some_iff.mp h
  have hsplit : emits = emits.take i ++ emits[i] :: emits.drop (i + 1) := by
    rw [List.getElem_cons_drop, List.take_append_drop]
  have hself : Emit.updates j emits[i] = true := by rw [heq]; exact beq_self_eq_true j
  have hcount : emits.countP (Emit.updates j) =
      (emits.take i).countP (Emit.updates j) + ((emits.drop (i + 1)).countP (Emit.updates j) + 1) := by
    conv_lhs => rw [hsplit]
    rw [List.countP_append, List.countP_cons_of_pos hself]
  omega

omit [IsStrictOrderedRing F] in
theorem assign_rolling (p : CompiledWindows F) {turn : WindowTurn F} {i j : Nat}
    (hemit : p.emissions[i]? = some (.rolling j)) (hnode : p.plan[j]? = some node) (hop : node.op ≠ .roc) (hone : p.updates j = 1)
    {before : List (Window F)} (hbefore : p.Rings (p.after (turn :: turns) (p.emissions.take i) (p.samplesOf turns)) before)
    {values : List (Option F)} {after' : List (Window F)} {v : Option F}
    (hassign : p.assign (turn :: turns) before values (.rolling j) = some (after', v)) :
    ∃ w, Ring node.capacity (p.pushed node 1 (turn :: turns)) w ∧ v = p.rollingValue (turn :: turns) node w w.count := by
  obtain ⟨w, hw, hring⟩ := hbefore j node hnode hop
  have hsamples : p.after (turn :: turns) (p.emissions.take i) (p.samplesOf turns) j = p.pushed node 1 turns := by
    rw [after, hnode]
    simp only [countP_take_eq_zero hemit hone, List.replicate_zero, List.nil_append, samplesOf_eq hnode, hone]
  rw [hsamples] at hring
  have hmem : node ∈ p.plan := List.mem_of_getElem? hnode
  obtain ⟨w', hupdate, hring'⟩ := p.update_spec (p.plannedAll_plan node hmem).one_le_capacity (p.sized node hmem) hring
    (p.sampleOf (turn :: turns) node)
  simp only [assign, hnode, hw, hupdate, Option.bind_eq_bind, Option.bind_some, Option.some.injEq, Prod.mk.injEq] at hassign
  exact ⟨w', hring', hassign.2.symm⟩

theorem rollingValue_eq (p : CompiledWindows F) {i j : Nat}
    (hemit : p.emissions[i]? = some (.rolling j)) (hnode : p.plan[j]? = some node)
    (hwithin : Within turns node.period node.capacity) (hfixed : p.Fixed turns node.period node.capacity)
    (hroc : ∀ c roc, node.child = some c → p.plan[c]? = some roc →
      Within turns roc.period roc.capacity ∧ p.Fixed turns roc.period roc.capacity ∧
        ∃ name names, node.ast = .call name [roc.ast, node.period] names) (hring : Ring node.capacity (p.pushed node 1 turns) w) {v : F}
    (heval : eval? p.sqrt (readAt turns) node.ast = some v) : p.rollingValue turns node w w.count = some v := by
  obtain ⟨_, _, hemitted⟩ := p.emission_emitted hemit
  cases hemitted with
  | rolling _ node' hnode' hop hsimple hnested =>
    cases hnode.symm.trans hnode'
    cases p.plannedAll_plan node (List.mem_of_getElem? hnode) with
    | roc value period names => exact absurd rfl hop
    | simple op value period names origin hop hvalue hmem =>
      exact rollingValue_simple p hop hvalue hmem (hsimple rfl) hwithin hfixed hring heval
    | nested op x rocPeriod rocNames period names origin c roc hop hmem hchild hrocOp =>
      obtain ⟨hrocWithin, hrocFixed, name, names', hast⟩ := hroc c roc rfl hchild
      simp only [Ast.call.injEq, List.cons.injEq] at hast
      have hrocAst : .call "__cxpr_window_roc" [x, rocPeriod] rocNames = roc.ast := hast.2.1.1
      have hrocPlanned := p.plannedAll_plan roc (List.mem_of_getElem? hchild)
      cases hrocPlanned with
      | roc value period' names'' =>
        cases hrocAst
        exact rollingValue_roc p hop hmem hchild rfl rfl rfl (hnested c _ rfl hchild) hwithin hfixed hrocWithin hrocFixed hring heval
      | simple op' _ _ _ _ hop' _ _ => exact absurd hrocOp hop'
      | nested op' _ _ _ _ _ _ _ _ hop' _ _ _ => exact absurd hrocOp hop'

omit [IsStrictOrderedRing F] in
theorem loops_of_call (p : CompiledWindows F) {i : Nat} (hb : p.bindings[i]? = some b) {op : Reduce} (hop : reduce? name = some op)
    (hmem : .call name [value, period] names ∈ visited b.ast) (hwithin : Within turns period (p.periodCapacity period)) :
    Loops p.toWindowModel turns [value] period where
  within := hwithin
  deep := by
    intro v hv depth hdepth
    cases List.mem_singleton.mp hv
    exact p.deep name value period names depth (mem_calls hb hmem) (mem_windowFunctions hop) hdepth

omit [IsStrictOrderedRing F] in
theorem loops_of_midpoint (p : CompiledWindows F) {i : Nat} (hb : p.bindings[i]? = some b) (hast : Midpoint high low period b.ast) (hwithin : Within turns period (p.periodCapacity period)) :
    Loops p.toWindowModel turns [high, low] period where
  within := hwithin
  deep := by
    have hcalls : (∃ names, .call "__cxpr_window_highest" [high, period] names ∈ visited b.ast) ∧
        ∃ names, .call "__cxpr_window_lowest" [low, period] names ∈ visited b.ast := by
      generalize b.ast = ast at hast
      obtain ⟨_, hsum⟩ | ⟨_, hsum⟩ := hast <;> obtain ⟨names, names'⟩ | ⟨names, names'⟩ := hsum <;>
        exact ⟨⟨names, by simp [visited]⟩, ⟨names', by simp [visited]⟩⟩
    obtain ⟨⟨names, hhigh⟩, names', hlow⟩ := hcalls
    intro v hv depth hdepth
    rcases List.mem_cons.mp hv with rfl | hv
    · exact p.deep _ _ _ names depth (mem_calls hb hhigh) (by decide) hdepth
    · cases List.mem_singleton.mp hv
      exact p.deep _ _ _ names' depth (mem_calls hb hlow) (by decide) hdepth

theorem value_of_regular (p : CompiledWindows F) {turn : WindowTurn F} {vs : List (Option F)}
    (heach : ∀ i emit, p.emissions[i]? = some emit → ∃ before after' v,
      p.Rings (p.after (turn :: turns) (p.emissions.take i) (p.samplesOf turns)) before ∧
      p.assign (turn :: turns) before (vs.take i) emit = some (after', v) ∧ vs[i]? = some v)
    {i : Nat} (hregular : p.Regular (turn :: turns) i) (hb : p.bindings[i]? = some b) {v : F}
    (heval : eval? p.sqrt (readAt (turn :: turns)) b.ast = some v) : vs[i]? = some (some v) := by
  -- an emission that is no update and no copy has the value of its loop
  have hloop : ∀ {i : Nat} {emit : Emit F}, p.emissions[i]? = some emit →
      (∀ before values, p.assign (turn :: turns) before values emit = some (before, p.loopValue (turn :: turns) emit)) →
      vs[i]? = some (p.loopValue (turn :: turns) emit) := by
    intro i emit hemit hassign
    obtain ⟨before, after', v', _, hstep, hv'⟩ := heach i emit hemit
    rw [hassign] at hstep
    cases hstep
    exact hv'
  induction hregular generalizing b v with
  | @copy i j b₀ b' hemit hb₀ hb' hast hj ih =>
    cases hb₀.symm.trans hb
    obtain ⟨before, after', v', _, hstep, hv'⟩ := heach i _ hemit
    obtain ⟨_, _, hemitted⟩ := p.emission_emitted hemit
    cases hemitted with
    | copy _ hlt =>
      have hcopied := ih hb' (by rwa [hast])
      simp only [assign, Option.some.injEq, Prod.mk.injEq, List.getElem?_take_of_lt hlt, hcopied, Option.join_some] at hstep
      rw [hv', ← hstep.2]
  | @rolling i j b₀ node hemit hb₀ hnode hast hone hwithin hfixed hroc =>
    cases hb₀.symm.trans hb
    obtain ⟨before, after', v', hbefore, hstep, hv'⟩ := heach i _ hemit
    obtain ⟨_, _, hemitted⟩ := p.emission_emitted hemit
    cases hemitted with
    | rolling _ node' hnode' hop =>
      cases hnode.symm.trans hnode'
      obtain ⟨w, hring, rfl⟩ := assign_rolling p hemit hnode hop hone hbefore hstep
      rw [hv', rollingValue_eq p hemit hnode hwithin hfixed hroc hring (by rwa [hast])]
  | @pairMean i value period hemit hwithin =>
    obtain ⟨b₀, hb₀, hemitted⟩ := p.emission_emitted hemit
    cases hemitted with
    | pairMean _ _ names hast hvalue =>
      cases hb₀.symm.trans hb
      rw [hast] at heval
      have hop : reduce? "__cxpr_window_mean" = some .mean := rfl
      obtain ⟨n, hn, rfl⟩ := eval?_call hop (.inl hvalue) heval
      have hloops := loops_of_call p hb hop (by rw [hast]; exact mem_visited_call _ _ _) hwithin
      rw [hloop hemit fun _ _ => rfl, loopValue_pairMean hloops hn]
  | @pairStddev i value period names b₀ hemit hb₀ hast hwithin =>
    cases hb₀.symm.trans hb
    rw [hast] at heval
    have hop : reduce? "__cxpr_window_stddev" = some .stddev := rfl
    obtain ⟨n, hn, rfl⟩ := eval?_call hop (.inr ⟨by decide, by decide⟩) heval
    have hloops := loops_of_call p hb hop (by rw [hast]; exact mem_visited_call _ _ _) hwithin
    rw [hloop hemit fun _ _ => rfl, loopValue_pairStddev hloops hn]
  | @midpoint i high low period b₀ hemit hb₀ hast hwithin hboth =>
    cases hb₀.symm.trans hb
    obtain ⟨n, hn, rfl⟩ := eval?_midpoint hast heval
    have hloops := loops_of_midpoint p hb hast hwithin
    rw [hloop hemit fun _ _ => rfl, loopValue_midpoint hloops hn (hboth n hn)]
  | @loop i op value period hemit hwithin =>
    obtain ⟨b₀, hb₀, hemitted⟩ := p.emission_emitted hemit
    cases hemitted with
    | loop name _ _ _ names hast hop hvalue =>
      cases hb₀.symm.trans hb
      rw [hast] at heval
      obtain ⟨n, hn, rfl⟩ := eval?_call hop (.inl hvalue) heval
      have hloops := loops_of_call p hb hop (by rw [hast]; exact mem_visited_call _ _ _) hwithin
      rw [hloop hemit fun _ _ => rfl, loopValue_loop hloops hn]

/-- In every run whose ticks pass the guard on invalid input, the windows of the emitted code agree with the interpreter: the
    value that a tick assigns to a regular binding is the fold over the samples of the period. The sum and the count of a
    window are always those of its ring, and the count fits its type. A ring with one update has one sample of every tick. -/
theorem windows_agree (p : CompiledWindows F) (turn : WindowTurn F) (turns : List (WindowTurn F))
    (hpass : ∀ t ∈ turn :: turns, (p.guarded && !t.passes) = false) :
    ∃ s vs, p.run (turn :: turns) = some (s, vs) ∧
      (∀ i b v, p.bindings[i]? = some b → p.Regular (turn :: turns) i →
        eval? p.sqrt (readAt (turn :: turns)) b.ast = some v → vs[i]? = some (some v)) ∧
      ∀ j node, p.plan[j]? = some node → node.op ≠ .roc → ∃ w, s.windows[j]? = some w ∧
        w.sum = total w.values ∧ w.count = tally w.values ∧ w.count < 2 ^ p.counterBits node.capacity ∧
        (p.updates j = 1 → (⟨w.values, w.values.length, w.next⟩ : SampleRing (Option F)).Holds
          (p.pushed node 1 (turn :: turns) ++ List.replicate node.capacity none)) := by
  obtain ⟨s, vs₀, hrun, hrings, hpast⟩ := run_spec p turns
  have hall : s.past = turns := hpast fun t ht => hpass t (List.mem_cons_of_mem _ ht)
  obtain ⟨windows, vs, htick, hrings', heach⟩ := tick_spec p (hpass turn List.mem_cons_self) hrings
  rw [hall] at htick hrings' heach
  refine ⟨⟨windows, turn :: turns⟩, vs, ?_, fun i b v hb hregular heval => ?_, fun j node hnode hop => ?_⟩
  · rw [run, hrun, Option.bind_some]
    exact htick
  · exact value_of_regular p heach hregular hb heval
  · obtain ⟨w, hw, hring⟩ := hrings' j node hnode hop
    refine ⟨w, hw, hring.sum, hring.count, ?_, fun hone => ?_⟩
    · exact Nat.lt_of_le_of_lt hring.count_le (p.capacity_lt_counter (p.sized node (List.mem_of_getElem? hnode)))
    · have hholds := hring.holds
      rwa [samplesOf_eq hnode, hone] at hholds

end

/-- `sum(window(close, 3))`. -/
def closeSum : Ast ℚ := .call "__cxpr_window_sum" [.identifier "close", .number 3] []

def summing (bindings : List (Binding ℚ)) : WindowModel ℚ where
  pow _ _ := none
  sqrt x := x
  fused := true
  constants := []
  bindings := bindings
  literals := none
  guarded := false
  depth ast := match ast with | .identifier "close" => some 2 | _ => none
  bits := 64

/-- A tick in which `close` has a value; a number has its own. -/
def closing (v : Option ℚ) : WindowTurn ℚ where
  passes := true
  now ast := match ast with | .identifier "close" => v | .number x => some x | _ => none

theorem mem_calls_summing {n : Nat} {ast : Ast ℚ} {update : Bool}
    (h : ast ∈ (summing (List.replicate n ⟨update, closeSum, true, false, false⟩)).calls) : ast = closeSum := by
  obtain ⟨b, hb, hast⟩ := List.mem_flatMap.mp h
  cases List.eq_of_mem_replicate hb
  simpa [visited, visitedList, closeSum] using hast

theorem capacity_three (bindings : List (Binding ℚ)) : (summing bindings).periodCapacity (.number 3) = 3 := by
  show wholePeriod (some (3 : ℚ)) = 3
  decide +kernel

def summingCompiled (n : Nat) (update : Bool)
    (hsized : ∀ node ∈ (summing (List.replicate n ⟨update, closeSum, true, false, false⟩)).plan, 8 * node.capacity < 2 ^ 64) :
    CompiledWindows ℚ where
  toWindowModel := summing (List.replicate n ⟨update, closeSum, true, false, false⟩)
  sized := hsized
  deep := by
    intro name value period names depth hmem _ hdepth
    cases mem_calls_summing hmem
    cases hdepth
    rw [capacity_three]
  deepRoc := by
    intro name x rocPeriod rocNames period names depth hmem
    nomatch mem_calls_summing hmem

def summedOnce : CompiledWindows ℚ := summingCompiled 1 false (by decide +kernel)

theorem summedOnce_agrees :
    (∀ t ∈ [closing none, closing (some 10)], (summedOnce.guarded && !t.passes) = false) ∧
      summedOnce.Regular [closing none, closing (some 10)] 0 ∧
      ∃ s vs, summedOnce.run [closing none, closing (some 10)] = some (s, vs) ∧ vs[0]? = some (some 10) := by
  have hpass : ∀ t ∈ [closing none, closing (some 10)], (summedOnce.guarded && !t.passes) = false := by
    intro t _
    rfl
  have hsamples : readSamples (readAt [closing none, closing (some 10)] (.number 3) 0) = some 3 := by decide +kernel
  have hregular : summedOnce.Regular [closing none, closing (some 10)] 0 := by
    refine .rolling (j := 0) rfl rfl rfl rfl ?_ ?_ ?_ ?_
    · decide +kernel
    · intro n hn
      cases hsamples.symm.trans hn
      decide +kernel
    · intro _ n hn
      cases hsamples.symm.trans hn
      decide +kernel
    · intro c roc hc
      nomatch hc
  obtain ⟨s, vs, hrun, hvalues, _⟩ := windows_agree summedOnce (closing none) [closing (some 10)] hpass
  exact ⟨hpass, hregular, s, vs, hrun, hvalues 0 ⟨false, closeSum, true, false, false⟩ 10 rfl hregular (by decide +kernel)⟩

def summedTwice : CompiledWindows ℚ := summingCompiled 2 true (by decide +kernel)

/-- In the first tick both updates push the sample: the second one is 20, where the sum over the samples is 10. -/
theorem shared_window_counts_twice :
    (summedTwice.run [closing (some 10)]).map (·.2) = some [some 10, some 20] ∧
      eval? summedTwice.sqrt (readAt [closing (some 10)]) closeSum = some 10 ∧ summedTwice.updates 0 = 2 := by
  refine ⟨?_, ?_, ?_⟩ <;> decide +kernel

end Cxpr.Codegen.WindowModel
