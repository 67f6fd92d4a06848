import Cxpr.Lib.Reorder
import Cxpr.Model.Staged

/-! The order of the bindings. The commit at the start of a tick and the pass over the bindings are runs of steps that may
    be swapped where neither waits for the other, so any order that respects the dependencies gives the same ticks. -/

namespace Cxpr.Model
variable {D χ : Type}

/-- Two sessions that look the same to the host and to every evaluation; updates may be staged in another order. -/
structure Same (s t : Session D χ) : Prop where
  ctx : Frame.Alike s.ctx t.ctx
  effects : t.effects = s.effects
  outputs : t.outputs = s.outputs
  histories : t.histories = s.histories
  stateBuffers : t.stateBuffers = s.stateBuffers
  pending : s.pending.Perm t.pending

theorem same_equivalence : Equivalence (Same (D := D) (χ := χ)) where
  refl _ := ⟨Frame.Alike.refl _, rfl, rfl, rfl, rfl, List.Perm.refl _⟩
  symm h := ⟨h.ctx.symm, h.effects.symm, h.outputs.symm, h.histories.symm, h.stateBuffers.symm, h.pending.symm⟩
  trans h h' := ⟨h.ctx.trans h'.ctx, h'.effects.trans h.effects, h'.outputs.trans h.outputs,
    h'.histories.trans h.histories, h'.stateBuffers.trans h.stateBuffers, h.pending.trans h'.pending⟩

section
variable {s t : Session D χ}

theorem Same.view (h : Same s t) : t.view = s.view := by
  unfold Session.view
  rw [funext h.ctx.cell, h.ctx.params, h.histories, h.stateBuffers]

theorem Same.getTyped (h : Same s t) (n : String) : t.getTyped n = s.getTyped n := by
  unfold Session.getTyped
  rw [h.ctx.cell, h.effects]

theorem Same.historyValue (h : Same s t) (key : String) : t.historyValue key = s.historyValue key := by
  unfold Session.historyValue Session.getField
  simp only [h.getTyped, h.ctx.cell]

theorem Same.setValue (h : Same s t) (n : String) (v : Value D) :
    Same { s with ctx := s.ctx.setValue n v } { t with ctx := t.ctx.setValue n v } :=
  { h with ctx := h.ctx.setValue n v }

theorem Same.prepare (h : Same s t) (w : HostWrites D) : Same (prepare w s) (prepare w t) := by
  refine { h with ctx := ?_ }
  have hinputs : Frame.Alike (w.inputs.foldl (fun f x => f.setValue x.1 x.2) s.ctx)
      (w.inputs.foldl (fun f x => f.setValue x.1 x.2) t.ctx) := by
    have hctx := h.ctx
    generalize s.ctx = f at hctx
    generalize t.ctx = g at hctx
    induction w.inputs generalizing f g with
    | nil => exact hctx
    | cons x writes ih => exact ih _ _ (hctx.setValue x.1 x.2)
  show Frame.Alike (w.params.foldl _ _) (w.params.foldl _ _)
  generalize w.inputs.foldl (fun f x => f.setValue x.1 x.2) s.ctx = f at hinputs
  generalize w.inputs.foldl (fun f x => f.setValue x.1 x.2) t.ctx = g at hinputs
  induction w.params generalizing f g with
  | nil => exact hinputs
  | cons x writes ih => exact ih _ _ (hinputs.setParamValue x.1 x.2)

variable {rt : Runtime D χ}

def committedBuffers (entries : List (HistoryEntry D)) (x : Binding D × Value D) : List (HistoryEntry D) :=
  if x.1.buffer then historyPush x.1.name x.2 entries else entries

/-- What a commit writes to the context: the value, or the published buffer; `null` where it writes nothing. -/
def committedValue (rt : Runtime D χ) (entries : List (HistoryEntry D)) (x : Binding D × Value D) : Value D :=
  if x.1.buffer then
    match entries.find? (·.name == x.1.name) with
    | none => .null
    | some e => if e.ring.values.length = 0 then .null else .array (published rt (e.ring.push x.2))
  else x.2

theorem commitValue_eq (s : Session D χ) (x : Binding D × Value D) :
    commitValue rt s x = { s with
      stateBuffers := committedBuffers s.stateBuffers x
      ctx := s.ctx.setValue x.1.name (committedValue rt s.stateBuffers x) } := by
  unfold commitValue committedBuffers committedValue
  by_cases hbuf : x.1.buffer = true
  · simp only [if_pos hbuf]
    unfold pushBuffer
    cases hfind : s.stateBuffers.find? (·.name == x.1.name) with
    | none =>
      simp only [historyPush_eq_self fun e (he : s.stateBuffers.find? (·.name == x.1.name) = some e) => by
        rw [hfind] at he; cases he]
      rfl
    | some e =>
      by_cases hzero : e.ring.values.length = 0
      · have hself : historyPush x.1.name x.2 s.stateBuffers = s.stateBuffers := historyPush_eq_self fun e' he' => by
          rw [hfind] at he'
          obtain rfl := Option.some.inj he'
          exact hzero
        simp only [if_pos hzero, hself]
        rfl
      · simp only [if_neg hzero]
  · simp only [if_neg hbuf]

variable {x y : Binding D × Value D} {bs : List (Binding D)}

theorem committedBuffers_comm (hne : x.1.name ≠ y.1.name) (entries : List (HistoryEntry D)) :
    committedBuffers (committedBuffers entries x) y = committedBuffers (committedBuffers entries y) x := by
  unfold committedBuffers
  cases x.1.buffer <;> cases y.1.buffer <;> simp [historyPush_comm hne]

theorem committedValue_of_ne (hne : x.1.name ≠ y.1.name) (entries : List (HistoryEntry D)) :
    committedValue rt (committedBuffers entries x) y = committedValue rt entries y := by
  unfold committedValue committedBuffers
  cases x.1.buffer with
  | false => rfl
  | true => simp only [if_pos, find_historyPush_of_ne (Ne.symm hne)]

theorem Same.commitValue (h : Same s t) (x : Binding D × Value D) : Same (commitValue rt s x) (commitValue rt t x) := by
  rw [commitValue_eq, commitValue_eq, h.stateBuffers]
  exact { h with ctx := h.ctx.setValue _ _, stateBuffers := rfl }

theorem commitValue_comm (hne : x.1.name ≠ y.1.name) (s : Session D χ) :
    Same (commitValue rt (commitValue rt s x) y) (commitValue rt (commitValue rt s y) x) := by
  simp only [commitValue_eq, committedValue_of_ne hne, committedValue_of_ne (Ne.symm hne), committedBuffers_comm hne]
  exact ⟨Frame.alike_setValue_comm s.ctx _ _ hne, rfl, rfl, rfl, rfl, List.Perm.refl _⟩

theorem commit_swappable : Reorder.Swappable (fun x s t => t = Model.commitValue rt s x) (Same (D := D) (χ := χ))
    (fun x y => x.1.name = y.1.name) where
  equivalence := same_equivalence
  simulate := by
    rintro x s s' t hs rfl
    exact ⟨_, rfl, hs.commitValue x⟩
  swap := by
    rintro x y s t u hne - rfl rfl
    exact ⟨_, _, rfl, rfl, commitValue_comm hne s⟩

theorem run_commit (rt : Runtime D χ) (l : List (Binding D × Value D)) (s : Session D χ) :
    ∀ t, Reorder.Run (fun x s t => t = Model.commitValue rt s x) l s t ↔ t = l.foldl (Model.commitValue rt) s := by
  intro t
  induction l generalizing s with
  | nil =>
    constructor
    · intro h
      cases h
      rfl
    · rintro rfl
      exact .nil _
  | cons x l ih =>
    constructor
    · intro h
      obtain _ | ⟨rfl, hrest⟩ := h
      exact (ih _).mp hrest
    · intro h
      exact .cons rfl ((ih _).mpr h)

theorem Same.commitPending (h : Same s t) (hnames : (s.pending.map (·.1.name)).Nodup) :
    Same (commitPending rt s) (commitPending rt t) := by
  have hordered : ∀ l : List (Binding D × Value D), (l.map (·.1.name)).Nodup →
      Reorder.Ordered (fun x y => x.1.name = y.1.name) l := fun l hl => List.pairwise_map.mp hl
  obtain ⟨u, hrun, hu⟩ := commit_swappable.run_simulate h ((run_commit rt s.pending s _).mpr rfl)
  obtain ⟨u', hrun', hu'⟩ := commit_swappable.run_perm h.pending (hordered _ hnames)
    (hordered _ ((h.pending.map _).nodup_iff.mp hnames)) hrun
  obtain rfl := (run_commit rt t.pending t u').mp hrun'
  exact { same_equivalence.trans hu hu' with pending := List.Perm.refl _ }

/-! ### The pass over the bindings -/

def View.assign (view : View D) (b : Binding D) (v : Value D) : View D :=
  match b.kind with
  | .stateUpdate => view
  | .expr => { view with cell := fun n => if n = b.name then (view.cell n).put v else view.cell n }

theorem view_assign (b : Binding D) (v : Value D) (s : Session D χ) : (assign b v s).view = s.view.assign b v := by
  unfold assign View.assign Session.view
  cases b.kind with
  | stateUpdate => rfl
  | expr =>
    simp only [Frame.paramStores_setValue]
    congr 1
    funext n
    exact Frame.cell_setValue s.ctx b.name n v

/-- Two bindings that, evaluated in either order, have the same values and leave the same cached structs and child
    sessions. -/
def Independent (rt : Runtime D χ) (a b : Binding D) : Prop :=
  ∀ view eff v eff₁ w eff₂,
    rt.eval a.resultKind a.ast view eff = (.ok v, eff₁) →
    rt.eval b.resultKind b.ast (view.assign a v) eff₁ = (.ok w, eff₂) →
    ∃ eff₁', rt.eval b.resultKind b.ast view eff = (.ok w, eff₁') ∧
      rt.eval a.resultKind a.ast (view.assign b w) eff₁' = (.ok v, eff₂)

def Dependencies (rt : Runtime D χ) (bs : List (Binding D)) (dep : Binding D → Binding D → Prop) : Prop :=
  ∀ a ∈ bs, ∀ b ∈ bs, ¬ dep a b → ¬ dep b a → Independent rt a b

def EvalStep (rt : Runtime D χ) (bs : List (Binding D)) (x : Binding D × Value D) (s t : Session D χ) : Prop :=
  x.1 ∈ bs ∧ ∃ eff, rt.eval x.1.resultKind x.1.ast s.view s.effects = (.ok x.2, eff) ∧
    t = assign x.1 x.2 { s with effects := eff }

def results (evs : List (Event D)) : List (Binding D × Value D) := evs.map fun e => (e.binding, e.value)

theorem run_of_evalBindings {l : List (Binding D)} (hl : l ⊆ bs) (h : evalBindings rt l s = (none, t)) :
    Reorder.Run (EvalStep rt bs) (results (events rt l s)) s t := by
  induction l generalizing s with
  | nil =>
    cases h
    exact .nil _
  | cons b l ih =>
    obtain ⟨v, eff, heval, hrest, hevents⟩ := evalBindings_cons h
    rw [hevents]
    exact .cons ⟨hl List.mem_cons_self, eff, heval, rfl⟩ (ih (fun x hx => hl (List.mem_cons_of_mem b hx)) hrest)

theorem evalBindings_of_run {l : List (Binding D × Value D)}
    (h : Reorder.Run (EvalStep rt bs) l s t) :
    evalBindings rt (l.map (·.1)) s = (none, t) ∧ results (events rt (l.map (·.1)) s) = l := by
  induction h with
  | nil s => exact ⟨rfl, rfl⟩
  | @cons x l s u t hx _ ih =>
    obtain ⟨-, eff, heval, rfl⟩ := hx
    obtain ⟨hrest, hresults⟩ := ih
    rw [List.map_cons, evalBindings, events, heval]
    exact ⟨hrest, congrArg (x :: ·) hresults⟩

theorem Same.assign (h : Same s t) (b : Binding D) (v : Value D) (eff : Effects D χ) :
    Same (assign b v { s with effects := eff }) (assign b v { t with effects := eff }) := by
  unfold Model.assign
  cases b.kind with
  | expr => exact { h with ctx := h.ctx.setValue b.name v, effects := rfl }
  | stateUpdate => exact { h with pending := h.pending.append (List.Perm.refl _), effects := rfl }

theorem assign_comm {a b : Binding D} (hne : a.name ≠ b.name) (v w : Value D) (eff₁ eff₁' eff₂ : Effects D χ) (s : Session D χ) :
    Same (assign b w { assign a v { s with effects := eff₁ } with effects := eff₂ })
      (assign a v { assign b w { s with effects := eff₁' } with effects := eff₂ }) := by
  unfold assign
  cases a.kind <;> cases b.kind
  · exact ⟨Frame.alike_setValue_comm s.ctx v w hne, rfl, rfl, rfl, rfl, List.Perm.refl _⟩
  · exact same_equivalence.refl _
  · exact same_equivalence.refl _
  · refine ⟨Frame.Alike.refl _, rfl, rfl, rfl, rfl, ?_⟩
    show ((s.pending ++ [(a, v)]) ++ [(b, w)]).Perm ((s.pending ++ [(b, w)]) ++ [(a, v)])
    rw [List.append_assoc, List.append_assoc]
    exact (List.Perm.swap (b, w) (a, v) []).append_left s.pending

theorem evalStep_swappable {dep : Binding D → Binding D → Prop}
    (hdep : Dependencies rt bs dep) :
    Reorder.Swappable (EvalStep rt bs) (Same (D := D) (χ := χ)) (fun x y => dep x.1 y.1 ∨ x.1.name = y.1.name) where
  equivalence := same_equivalence
  simulate := by
    rintro x s s' t hs ⟨hx, eff, heval, rfl⟩
    refine ⟨_, ⟨hx, eff, ?_, rfl⟩, hs.assign x.1 x.2 eff⟩
    rw [hs.view, hs.effects]
    exact heval
  swap := by
    rintro ⟨a, v⟩ ⟨b, w⟩ s t u hab hba ⟨ha, eff₁, heval₁, rfl⟩ ⟨hb, eff₂, heval₂, rfl⟩
    rw [not_or] at hab hba
    rw [view_assign, (assign_frame a v _).2.2.2.1] at heval₂
    obtain ⟨eff₁', heval₁', heval₂'⟩ := hdep a ha b hb hab.1 hba.1 s.view s.effects v eff₁ w eff₂ heval₁ heval₂
    refine ⟨_, _, ⟨hb, eff₁', heval₁', rfl⟩, ⟨ha, eff₂, ?_, rfl⟩, assign_comm hab.2 v w eff₁ eff₁' eff₂ s⟩
    rw [view_assign, (assign_frame b w _).2.2.2.1]
    exact heval₂'

theorem Same.evalBindings {u : Session D χ} (h : Same s t) {bs' : List (Binding D)} {dep : Binding D → Binding D → Prop}
    (hdep : Dependencies rt bs dep) (hnames : (bs.map (·.name)).Nodup)
    (hperm : bs.Perm bs') (hordered : Reorder.Ordered dep bs) (hordered' : Reorder.Ordered dep bs')
    (heval : Model.evalBindings rt bs s = (none, u)) :
    ∃ u', Model.evalBindings rt bs' t = (none, u') ∧ Same u u' ∧
      (results (events rt bs s)).Perm (results (events rt bs' t)) := by
  have hsw := evalStep_swappable hdep
  obtain ⟨hmap, -⟩ := evalBindings_staged heval
  have hlabels : (results (events rt bs s)).map (·.1) = bs := by
    rw [results, List.map_map]
    exact hmap
  -- the new order, with the value that each binding has
  obtain ⟨l, hl, hlperm⟩ := Reorder.exists_map_eq_of_perm (hlabels.symm ▸ hperm)
  have hwaits : ∀ m : List (Binding D × Value D), Reorder.Ordered dep (m.map (·.1)) → ((m.map (·.1)).map (·.name)).Nodup →
      Reorder.Ordered (fun x y => dep x.1 y.1 ∨ x.1.name = y.1.name) m := by
    intro m hm hnodup
    rw [List.map_map] at hnodup
    exact (List.pairwise_map.mp hm).imp₂ (fun _ _ hdep hname => not_or.mpr ⟨hdep, hname⟩) (List.pairwise_map.mp hnodup)
  obtain ⟨u₁, hrun₁, hu₁⟩ := hsw.run_simulate h (run_of_evalBindings (List.Subset.refl bs) heval)
  obtain ⟨u₂, hrun₂, hu₂⟩ := hsw.run_perm hlperm (hwaits _ (by rw [hlabels]; exact hordered) (by rw [hlabels]; exact hnames))
    (hwaits _ (by rw [hl]; exact hordered') (by rw [hl]; exact (hperm.map _).nodup_iff.mp hnames)) hrun₁
  obtain ⟨heval', hresults⟩ := evalBindings_of_run hrun₂
  rw [hl] at heval' hresults
  exact ⟨u₂, heval', same_equivalence.trans hu₁ hu₂, hresults ▸ hlperm⟩

theorem stagedScalar_perm {l l' : List (Binding D × Value D)} (h : l.Perm l') (hnames : (l.map (·.1.name)).Nodup)
    (name : String) : stagedScalar name l' = stagedScalar name l := by
  unfold stagedScalar
  congr 1
  cases hl : l.find? fun x => x.1.name == name && (x.2.type == .number || x.2.type == .bool || x.2.type == .int64) with
  | none =>
    rw [List.find?_eq_none] at hl ⊢
    exact fun x hx => hl x (h.mem_iff.mpr hx)
  | some x =>
    have hx := List.find?_some hl
    cases hl' : l'.find? fun x => x.1.name == name && (x.2.type == .number || x.2.type == .bool || x.2.type == .int64) with
    | none =>
      rw [List.find?_eq_none] at hl'
      exact absurd hx (hl' x (h.mem_iff.mp (List.mem_of_find?_eq_some hl)))
    | some y =>
      have hy := List.find?_some hl'
      simp only [Bool.and_eq_true, beq_iff_eq] at hx hy
      have hmem : y ∈ l := h.mem_iff.mpr (List.mem_of_find?_eq_some hl')
      rw [List.inj_on_of_nodup_map hnames hmem (List.mem_of_find?_eq_some hl) (hy.1.trans hx.1.symm)]

theorem Same.captureHistory (rt : Runtime D χ) (h : Same s t) (specs : List (HistorySpec D)) :
    (captureHistory rt specs t).1 = (captureHistory rt specs s).1 ∧
      Same (captureHistory rt specs s).2 (captureHistory rt specs t).2 := by
  induction specs generalizing s t with
  | nil => exact ⟨rfl, h⟩
  | cons spec specs ih =>
    have hpush : ∀ v : Value D, Same { s with histories := historyPush spec.name v s.histories }
        { t with histories := historyPush spec.name v t.histories } := fun v =>
      { h with histories := congrArg (historyPush spec.name v) h.histories }
    unfold Model.captureHistory
    rw [h.historyValue, h.view, h.effects]
    cases s.historyValue spec.name with
    | some v => exact ih { hpush v with effects := rfl }
    | none =>
      cases spec.target with
      | none => exact ih h
      | some target =>
        dsimp only
        rcases rt.evalAst target s.view s.effects with ⟨result, eff⟩
        cases result with
        | error err => exact ⟨rfl, { h with effects := rfl }⟩
        | ok v => exact ih { hpush v with effects := rfl }

variable [Double D]

theorem Same.get (h : Same s t) (n : String) : t.get n = s.get n := by
  unfold Session.get
  rw [h.getTyped]

theorem Same.refreshOutputs (h : Same s t) (hnames : (s.pending.map (·.1.name)).Nodup) (p : Program D) :
    Same (refreshOutputs p s) (refreshOutputs p t) := by
  have hrefresh : ∀ name o, refreshOutput t name o = refreshOutput s name o := by
    intro name o
    unfold refreshOutput
    rw [stagedScalar_perm h.pending hnames, h.getTyped, h.get]
  refine { h with outputs := ?_ }
  show List.zipWith (refreshOutput t) p.outputs t.outputs = List.zipWith (refreshOutput s) p.outputs s.outputs
  rw [h.outputs, funext fun name => funext fun o => hrefresh name o]

theorem Same.finish {u : Session D χ} {p : Program D} (h : Same s t) (hnames : (s.pending.map (·.1.name)).Nodup)
    (hfinish : finish rt p s = (none, u)) : ∃ u', finish rt p t = (none, u') ∧ Same u u' := by
  obtain ⟨hresult, hsame⟩ := (h.refreshOutputs hnames p).captureHistory rt p.historySpecs
  unfold Model.finish at hfinish ⊢
  rcases hs : Model.captureHistory rt p.historySpecs (Model.refreshOutputs p s) with ⟨result, s'⟩
  rcases ht : Model.captureHistory rt p.historySpecs (Model.refreshOutputs p t) with ⟨result', t'⟩
  rw [hs] at hfinish hresult hsame
  rw [ht] at hresult hsame
  cases result with
  | some err => cases hfinish
  | none =>
    cases hfinish
    obtain rfl : result' = none := hresult
    exact ⟨t', rfl, hsame⟩

theorem Same.clampConstants (h : Same s t) (p : Program D) : Same (clampConstants p s) (clampConstants p t) := by
  unfold Model.clampConstants
  induction p.constants generalizing s t with
  | nil => exact h
  | cons c cs ih =>
    refine ih ?_
    unfold clampConstant
    rw [h.get]
    split
    · split
      · exact h
      · exact h.setValue c.name (.number _)
    · exact h

def Program.reorder (p : Program D) (bs : List (Binding D)) (h : p.bindings.Perm bs) : Program D where
  constants := p.constants
  stateDefaults := p.stateDefaults
  bindings := bs
  inputs := p.inputs
  outputs := p.outputs
  historySpecs := p.historySpecs
  binding_names := (h.map _).nodup_iff.mp p.binding_names
  state_names := p.state_names
  input_free b hb := p.input_free b (h.mem_iff.mpr hb)
  update_known b hb := p.update_known b (h.mem_iff.mpr hb)
  expr_free b hb := p.expr_free b (h.mem_iff.mpr hb)

section
variable {p : Program D} {bs : List (Binding D)} {dep : Binding D → Binding D → Prop}

theorem Same.ready (rt : Runtime D χ) (h : Same s t) (hnames : (s.pending.map (·.1.name)).Nodup) (hperm : p.bindings.Perm bs) :
    Same (ready rt p s) (ready rt (p.reorder bs hperm) t) := by
  obtain ⟨ctx, hclamp, -, -⟩ := clampConstants_eq p.constants s
  have hpending : (Model.clampConstants p s).pending = s.pending := by
    unfold Model.clampConstants
    rw [hclamp]
  have hclamped : Same (Model.clampConstants p s) (Model.clampConstants (p.reorder bs hperm) t) := h.clampConstants p
  have hcleared : Same (clearCachedStructs (Model.clampConstants p s))
      (clearCachedStructs (Model.clampConstants (p.reorder bs hperm) t)) := by
    refine { hclamped with effects := ?_ }
    unfold clearCachedStructs
    rw [hclamped.effects]
  exact hcleared.commitPending (by show ((Model.clampConstants p s).pending.map _).Nodup; rw [hpending]; exact hnames)

theorem evalBindings_of_tick {u : Session D χ} (h : tick rt p s = (none, u)) :
    ∃ t, evalBindings rt p.bindings (Model.ready rt p s) = (none, t) ∧ finish rt p t = (none, u) := by
  unfold tick at h
  rcases heval : Model.evalBindings rt p.bindings (Model.ready rt p s) with ⟨result, t⟩
  rw [heval] at h
  cases result with
  | some err => cases h
  | none => exact ⟨t, rfl, h⟩

theorem pending_names_of_tick {u : Session D χ} (h : tick rt p s = (none, u)) : (u.pending.map (·.1.name)).Nodup := by
  obtain ⟨t, heval, hfinish⟩ := evalBindings_of_tick h
  obtain ⟨-, -, hpending⟩ := finish_keeps rt p t
  rw [hfinish] at hpending
  obtain ⟨hmap, hstaged⟩ := evalBindings_staged heval
  rw [hpending, hstaged]
  exact staged_names hmap

theorem Same.tick {u : Session D χ} (h : Same s t) (hnames : (s.pending.map (·.1.name)).Nodup)
    (hdep : Dependencies rt p.bindings dep)
    (hperm : p.bindings.Perm bs) (hordered : Reorder.Ordered dep p.bindings) (hordered' : Reorder.Ordered dep bs)
    (htick : tick rt p s = (none, u)) :
    ∃ u', Model.tick rt (p.reorder bs hperm) t = (none, u') ∧ Same u u' ∧
      (results (tickEvents rt p s)).Perm (results (tickEvents rt (p.reorder bs hperm) t)) := by
  obtain ⟨m, heval, hfinish⟩ := evalBindings_of_tick htick
  obtain ⟨m', heval', hm, hresults⟩ :=
    (h.ready rt hnames hperm).evalBindings hdep p.binding_names hperm hordered hordered' heval
  obtain ⟨hmap, hstaged⟩ := evalBindings_staged heval
  have hstagedNames : (m.pending.map (·.1.name)).Nodup := by
    rw [hstaged]
    exact staged_names hmap
  obtain ⟨u', hfinish', hu⟩ := hm.finish hstagedNames hfinish
  refine ⟨u', ?_, hu, hresults⟩
  rw [tick_eq]
  show proceed (Model.evalBindings rt bs (Model.ready rt (p.reorder bs hperm) t)) _ = _
  rw [heval', proceed_none]
  exact hfinish'

theorem Run.reorder {meets : HostWrites D → Session D χ → Prop} {s₀ : Session D χ} {ws : List (HostWrites D)}
    {past : List (List (Event D))} (hmeets : ∀ w s t, Same s t → meets w s → meets w t) (hstart : s₀.pending = [])
    (hdep : Dependencies rt p.bindings dep)
    (hperm : p.bindings.Perm bs) (hordered : Reorder.Ordered dep p.bindings) (hordered' : Reorder.Ordered dep bs)
    (h : Run rt p meets s₀ ws past s) :
    ∃ past' s', Run rt (p.reorder bs hperm) meets s₀ ws past' s' ∧ Same s s' ∧
      List.Forall₂ (fun evs evs' => (results evs).Perm (results evs')) past past' := by
  suffices hall : (s.pending.map (·.1.name)).Nodup ∧ ∃ past' s', Run rt (p.reorder bs hperm) meets s₀ ws past' s' ∧
      Same s s' ∧ List.Forall₂ (fun evs evs' => (results evs).Perm (results evs')) past past' from hall.2
  induction h with
  | start => exact ⟨by rw [hstart]; exact List.nodup_nil, [], s₀, .start, same_equivalence.refl s₀, .nil⟩
  | @tick ws past s u w _ hw htick ih =>
    obtain ⟨hnames, past', s', hrun, hsame, hpast⟩ := ih
    have hprepared := hsame.prepare w
    obtain ⟨u', htick', hu, hresults⟩ := hprepared.tick hnames hdep hperm hordered hordered' htick
    exact ⟨pending_names_of_tick htick, _, u', .tick w hrun (hmeets w _ _ hprepared hw) htick', hu, .cons hresults hpast⟩

end

end
end Cxpr.Model
