import Cxpr.Model.Tick

/-! What the bindings of a tick read of the states. The updates of a tick are staged, committed at the start of the next
    one and left alone until its end, so that every evaluation of a tick reads for each state what its update computed
    in the tick before. A value that the context cannot show under its name is the exception. -/

namespace Cxpr.Model
variable {D χ : Type}

structure Event (D : Type) where
  binding : Binding D
  view : View D
  value : Value D

def staged (evs : List (Event D)) : List (Binding D × Value D) :=
  evs.filterMap fun e => if e.binding.kind = .stateUpdate then some (e.binding, e.value) else none

def computed (evs : List (Event D)) (name : String) : Option (Value D) :=
  ((staged evs).find? (·.1.name == name)).map (·.2)

def events (rt : Runtime D χ) : List (Binding D) → Session D χ → List (Event D)
  | [], _ => []
  | b :: bs, s =>
    match rt.eval b.resultKind b.ast s.view s.effects with
    | (.error _, _) => []
    | (.ok v, eff) => ⟨b, s.view, v⟩ :: events rt bs (assign b v { s with effects := eff })

/-! ### Evaluating the bindings -/

variable {rt : Runtime D χ} {p : Program D} {n : String}

variable {b : Binding D} {bs : List (Binding D)} {s t : Session D χ} {evs : List (Event D)}

theorem evalBindings_cons
    (h : evalBindings rt (b :: bs) s = (none, t)) :
    ∃ v eff, rt.eval b.resultKind b.ast s.view s.effects = (.ok v, eff) ∧
      evalBindings rt bs (assign b v { s with effects := eff }) = (none, t) ∧
      events rt (b :: bs) s = ⟨b, s.view, v⟩ :: events rt bs (assign b v { s with effects := eff }) := by
  unfold evalBindings at h
  rcases heval : rt.eval b.resultKind b.ast s.view s.effects with ⟨result, eff⟩
  rw [heval] at h
  cases result with
  | error err => cases h
  | ok v => exact ⟨v, eff, rfl, h, by rw [events, heval]⟩

theorem staged_cons (e : Event D) (evs : List (Event D)) :
    staged (e :: evs) = (if e.binding.kind = .stateUpdate then [(e.binding, e.value)] else []) ++ staged evs := by
  unfold staged
  rw [List.filterMap_cons]
  by_cases h : e.binding.kind = .stateUpdate
  · simp [h]
  · simp [h]

theorem pending_assign (b : Binding D) (v : Value D) (s : Session D χ) :
    (assign b v s).pending = s.pending ++ if b.kind = .stateUpdate then [(b, v)] else [] := by
  unfold assign
  cases b.kind <;> simp

theorem assign_frame (b : Binding D) (v : Value D) (s : Session D χ) :
    (assign b v s).outputs = s.outputs ∧ (assign b v s).histories = s.histories ∧
      (assign b v s).stateBuffers = s.stateBuffers ∧ (assign b v s).effects = s.effects ∧
      (assign b v s).ctx.paramStores = s.ctx.paramStores := by
  unfold assign
  cases b.kind
  · exact ⟨rfl, rfl, rfl, rfl, Frame.paramStores_setValue _ _ _⟩
  · exact ⟨rfl, rfl, rfl, rfl, rfl⟩

theorem cell_assign_of_ne (v : Value D) (s : Session D χ) (hne : b.kind = .expr → n ≠ b.name) :
    (assign b v s).ctx.cell n = s.ctx.cell n := by
  unfold assign
  cases hk : b.kind with
  | expr => exact Frame.cell_setValue_of_ne s.ctx v (hne hk)
  | stateUpdate => rfl

theorem evalBindings_staged (h : evalBindings rt bs s = (none, t)) :
    (events rt bs s).map (·.binding) = bs ∧ t.pending = s.pending ++ staged (events rt bs s) := by
  induction bs generalizing s with
  | nil =>
    cases h
    exact ⟨rfl, by simp [events, staged]⟩
  | cons b bs ih =>
    obtain ⟨v, eff, -, hrest, hevents⟩ := evalBindings_cons h
    obtain ⟨hmap, hpending⟩ := ih hrest
    rw [hevents]
    refine ⟨by rw [List.map_cons, hmap], ?_⟩
    rw [hpending, pending_assign, staged_cons, List.append_assoc]

theorem evalBindings_keeps (h : evalBindings rt bs s = (none, t))
    (hn : ∀ b ∈ bs, b.kind = .expr → n ≠ b.name) :
    (t.ctx.cell n = s.ctx.cell n ∧ t.stateBuffers = s.stateBuffers) ∧
      ∀ e ∈ events rt bs s, e.view.cell n = s.ctx.cell n ∧ e.view.stateBuffers = s.stateBuffers := by
  induction bs generalizing s with
  | nil =>
    cases h
    exact ⟨⟨rfl, rfl⟩, by simp [events]⟩
  | cons b bs ih =>
    obtain ⟨v, eff, -, hrest, hevents⟩ := evalBindings_cons h
    obtain ⟨⟨hcell, hbuffers⟩, hviews⟩ := ih hrest fun b' hb' => hn b' (List.mem_cons_of_mem b hb')
    have hcell' : (assign b v { s with effects := eff }).ctx.cell n = s.ctx.cell n :=
      cell_assign_of_ne v { s with effects := eff } (hn b List.mem_cons_self)
    have hbuffers' : (assign b v { s with effects := eff }).stateBuffers = s.stateBuffers :=
      (assign_frame b v { s with effects := eff }).2.2.1
    refine ⟨⟨hcell.trans hcell', hbuffers.trans hbuffers'⟩, ?_⟩
    rw [hevents]
    intro e he
    rcases List.mem_cons.mp he with rfl | he
    · exact ⟨rfl, rfl⟩
    · exact ⟨(hviews e he).1.trans hcell', (hviews e he).2.trans hbuffers'⟩

theorem captureHistory_keeps (rt : Runtime D χ) (specs : List (HistorySpec D)) (s : Session D χ) :
    (captureHistory rt specs s).2.ctx = s.ctx ∧ (captureHistory rt specs s).2.stateBuffers = s.stateBuffers ∧
      (captureHistory rt specs s).2.pending = s.pending ∧ (captureHistory rt specs s).2.outputs = s.outputs := by
  induction specs generalizing s with
  | nil => exact ⟨rfl, rfl, rfl, rfl⟩
  | cons spec specs ih =>
    unfold captureHistory
    split
    · exact ih _
    · exact ih _
    · rename_i target _ _
      rcases rt.evalAst target s.view s.effects with ⟨result, eff⟩
      cases result with
      | error err => exact ⟨rfl, rfl, rfl, rfl⟩
      | ok v => exact ih _

def Program.samples (p : Program D) (name : String) : Nat :=
  match p.stateDefaults.find? (·.name == name) with
  | some ⟨_, _, .inr samples⟩ => samples
  | _ => 0

def previous (defaults : List (String × Value D)) (name : String) : List (List (Event D)) → Option (Value D)
  | [] => defaults.lookup name
  | evs :: _ => computed evs name

/-- What an evaluation after the ticks of `past` is to read of the state of an update: a buffer has the values of
    those ticks, any other state its previous value. -/
def Reads (rt : Runtime D χ) (p : Program D) (defaults : List (String × Value D)) (past : List (List (Event D)))
    (view : View D) (b : Binding D) : Prop :=
  if b.buffer then
    let values := (past.filterMap (computed · b.name)).take (p.samples b.name)
    (view.cell b.name).read =
      some (.array ((List.range (p.samples b.name)).map fun i => values[i]?.getD (.number rt.nan))) ∧
    ∃ entry, view.stateBuffers.find? (·.name == b.name) = some entry ∧ ∀ i, entry.ring.newest i = values[i]?
  else
    (view.cell b.name).read = previous defaults b.name past

/-- In each tick every evaluation reads each state as the updates of the ticks before left it. -/
def Staged (rt : Runtime D χ) (p : Program D) (defaults : List (String × Value D)) : List (List (Event D)) → Prop
  | [] => True
  | evs :: past =>
    (∀ e ∈ evs, ∀ b ∈ p.bindings, b.kind = .stateUpdate → Reads rt p defaults past e.view b) ∧
      Staged rt p defaults past

theorem map_staged (evs : List (Event D)) :
    (staged evs).map (·.1) = (evs.map (·.binding)).filter (·.kind = .stateUpdate) := by
  induction evs with
  | nil => rfl
  | cons e evs ih =>
    rw [staged_cons, List.map_append, ih, List.map_cons, List.filter_cons]
    by_cases h : e.binding.kind = .stateUpdate
    · simp [h]
    · simp [h]

theorem staged_names (h : evs.map (·.binding) = p.bindings) :
    ((staged evs).map (·.1.name)).Nodup := by
  have hmap : (staged evs).map (·.1.name) = ((evs.map (·.binding)).filter (·.kind = .stateUpdate)).map (·.name) := by
    rw [← map_staged, List.map_map]
    rfl
  rw [hmap, h]
  exact p.binding_names.sublist (List.filter_sublist.map _)

theorem mem_bindings_of_staged (h : evs.map (·.binding) = p.bindings) {x : Binding D × Value D}
    (hx : x ∈ staged evs) : x.1 ∈ p.bindings ∧ x.1.kind = .stateUpdate := by
  have hmem : x.1 ∈ (staged evs).map (·.1) := List.mem_map_of_mem hx
  rw [map_staged, h, List.mem_filter] at hmem
  exact ⟨hmem.1, by simpa using hmem.2⟩

theorem exists_computed (h : evs.map (·.binding) = p.bindings) (hb : b ∈ p.bindings)
    (hk : b.kind = .stateUpdate) : ∃ v, (b, v) ∈ staged evs ∧ computed evs b.name = some v := by
  have hmem : b ∈ (staged evs).map (·.1) := by
    rw [map_staged, h, List.mem_filter]
    exact ⟨hb, by simpa using hk⟩
  obtain ⟨⟨b', v⟩, hx, rfl⟩ := List.mem_map.mp hmem
  refine ⟨v, hx, ?_⟩
  have hfind : (staged evs).find? (·.1.name == b'.name) = some (b', v) := find?_of_nodup (staged_names h) hx
  rw [computed, hfind]
  rfl

def Holding (rt : Runtime D χ) (p : Program D) (values : List (Value D)) (s : Session D χ) (name : String) : Prop :=
  ∃ entry, s.buffer? name = some entry ∧ entry.ring.values.length = p.samples name ∧ entry.ring.Holds values ∧
    (s.ctx.cell name).int64 = none ∧ (s.ctx.cell name).read = some (.array (published rt entry.ring))

section
variable {values : List (Value D)} {s t : Session D χ}

theorem Holding.congr (h : Holding rt p values s n) (hagree : AgreeAt n s t) : Holding rt p values t n := by
  obtain ⟨entry, hentry, hlen, hholds, hint, hread⟩ := h
  exact ⟨entry, hagree.2.trans hentry, hlen, hholds, hagree.1 ▸ hint, hagree.1 ▸ hread⟩

theorem Holding.push (h : Holding rt p values s n) (v : Value D) : Holding rt p (v :: values) (pushBuffer rt n v s) n := by
  obtain ⟨entry, hentry, hlen, hholds, hint, hread⟩ := h
  have hfind : s.stateBuffers.find? (·.name == n) = some entry := hentry
  unfold pushBuffer
  rw [hfind]
  by_cases hzero : entry.ring.values.length = 0
  · have hsame : entry.ring.push v = entry.ring := by rw [SampleRing.push, if_pos hzero]
    simp only [if_pos hzero]
    exact ⟨entry, hentry, hlen, hsame ▸ hholds.push v, hint, hread⟩
  · simp only [if_neg hzero]
    refine ⟨{ entry with ring := entry.ring.push v }, find_historyPush_self hfind, ?_, hholds.push v, ?_, ?_⟩
    · rw [SampleRing.length_push]
      exact hlen
    · rw [Frame.cell_setValue_self]
      exact hint
    · rw [Frame.cell_setValue_self]
      exact (Cell.read_put_iff _ (.array _)).mpr hint

theorem published_eq {ring : SampleRing (Value D)} (h : ring.Holds values) :
    published rt ring = (List.range ring.values.length).map fun i =>
      (values.take ring.values.length)[i]?.getD (.number rt.nan) := by
  unfold published
  congr 1
  funext i
  rw [h.newest]

end

/-! ### The invariant of a run -/

def LimitsFree (p : Program D) : Prop := ∀ c ∈ p.constants, c.limited = true → ∀ st ∈ p.stateDefaults, st.name ≠ c.name

/-- The host writes to inputs, and to parameters that have not the name of a state. -/
structure HostWrites.Fits (w : HostWrites D) (p : Program D) : Prop where
  inputs : ∀ x ∈ w.inputs, x.1 ∈ p.inputs
  params : ∀ x ∈ w.params, ∀ st ∈ p.stateDefaults, st.name ≠ x.1

/-- Every staged value can be shown by the context over what it holds under that name. -/
def Showable (s : Session D χ) : Prop :=
  ∀ x ∈ s.pending, x.1.buffer = false → (s.ctx.cell x.1.name).Takes x.2

/-- The session after the ticks of `past`: the updates of the last one are staged, the buffers have those of the ticks
    before. -/
structure Tracks (rt : Runtime D χ) (p : Program D) (defaults : List (String × Value D)) (past : List (List (Event D)))
    (s : Session D χ) : Prop where
  pending : s.pending = staged (past.headD [])
  complete : ∀ evs ∈ past, evs.map (·.binding) = p.bindings
  defaults : past = [] → ∀ b ∈ p.bindings, b.kind = .stateUpdate → b.buffer = false →
    (s.ctx.cell b.name).read = defaults.lookup b.name
  buffers : ∀ b ∈ p.bindings, b.kind = .stateUpdate → b.buffer = true →
    Holding rt p (past.tail.filterMap (computed · b.name)) s b.name

section
variable {defaults : List (String × Value D)} {past : List (List (Event D))} {s t : Session D χ} {b : Binding D}

theorem state_of_update (hb : b ∈ p.bindings) (hk : b.kind = .stateUpdate) :
    ∃ st ∈ p.stateDefaults, st.name = b.name := by
  obtain ⟨st, hst, hname, -⟩ := p.update_known b hb hk
  exact ⟨st, hst, hname⟩

theorem update_ne_expr (hb : b ∈ p.bindings) (hk : b.kind = .stateUpdate) :
    ∀ b' ∈ p.bindings, b'.kind = .expr → b.name ≠ b'.name := by
  intro b' hb' hk' heq
  obtain ⟨st, hst, hname⟩ := state_of_update hb hk
  exact p.expr_free b' hb' hk' st hst (hname.trans heq)

theorem agreeAt_prepare_update {w : HostWrites D} (hw : w.Fits p) (s : Session D χ) (hb : b ∈ p.bindings)
    (hk : b.kind = .stateUpdate) : AgreeAt b.name s (prepare w s) := by
  obtain ⟨st, hst, hname⟩ := state_of_update hb hk
  refine agreeAt_prepare s (fun x hx heq => ?_) fun x hx heq => ?_
  · exact p.input_free b hb (heq ▸ hw.inputs x hx)
  · exact hw.params x hx st hst (hname.trans heq)

theorem Tracks.prepare {w : HostWrites D} (h : Tracks rt p defaults past s) (hw : w.Fits p) :
    Tracks rt p defaults past (prepare w s) where
  pending := h.pending
  complete := h.complete
  defaults hnil b hb hk hbuf := by
    rw [(agreeAt_prepare_update hw s hb hk).1]
    exact h.defaults hnil b hb hk hbuf
  buffers b hb hk hbuf := (h.buffers b hb hk hbuf).congr (agreeAt_prepare_update hw s hb hk)

end

section
variable {s t : Session D χ} {defaults : List (String × Value D)}

theorem seedConstants_keeps {cs : List (Constant D)} (h : seedConstants rt cs s = .ok t) :
    t.stateBuffers = s.stateBuffers ∧ t.pending = s.pending ∧
      ∀ n, ∃ struct, t.ctx.cell n = { s.ctx.cell n with struct := struct } := by
  induction cs generalizing s with
  | nil =>
    cases h
    exact ⟨rfl, rfl, fun n => ⟨_, rfl⟩⟩
  | cons c cs ih =>
    unfold seedConstants at h
    rcases heval : rt.evalAst c.ast s.view s.effects with ⟨result, eff⟩
    rw [heval] at h
    cases result with
    | error err => cases h
    | ok v =>
      obtain ⟨hbuffers, hpending, hcells⟩ := ih h
      refine ⟨hbuffers, hpending, fun n => ?_⟩
      obtain ⟨struct, hstruct⟩ := hcells n
      obtain ⟨struct', hstruct'⟩ := Frame.cell_setParamValue s.ctx c.name n v
      refine ⟨struct, ?_⟩
      rw [hstruct]
      show { Frame.cell (s.ctx.setParamValue c.name v) n with struct := struct } = _
      rw [hstruct']

variable {sts : List (StateDefault D)}

theorem seedStates_cons {st : StateDefault D}
    (h : seedStates rt (st :: sts) s = .ok (t, defaults)) :
    ((∃ samples, st.initial = .inr samples) ∧ seedStates rt sts s = .ok (t, defaults)) ∨
    (∃ ast v eff defaults', st.initial = .inl ast ∧ defaults = (st.name, v) :: defaults' ∧
      seedStates rt sts { s with effects := eff, ctx := s.ctx.setValue st.name v } = .ok (t, defaults')) := by
  unfold seedStates at h
  cases hinit : st.initial with
  | inr samples =>
    rw [hinit] at h
    exact Or.inl ⟨⟨samples, rfl⟩, h⟩
  | inl ast =>
    rw [hinit] at h
    simp only at h
    rcases heval : rt.eval st.resultKind ast { s.view with histories := [], stateBuffers := [] } s.effects with ⟨result, eff⟩
    rw [heval] at h
    cases result with
    | error err => cases h
    | ok v =>
      obtain ⟨⟨t', defaults'⟩, hrest, hok⟩ := bind_eq_ok.mp h
      cases hok
      exact Or.inr ⟨ast, v, eff, defaults', rfl, rfl, hrest⟩

theorem seedStates_keeps (h : seedStates rt sts s = .ok (t, defaults)) :
    t.stateBuffers = s.stateBuffers ∧ t.pending = s.pending ∧
      ∀ n, (∀ st ∈ sts, st.initial.isLeft = true → n ≠ st.name) → t.ctx.cell n = s.ctx.cell n := by
  induction sts generalizing s defaults with
  | nil =>
    cases h
    exact ⟨rfl, rfl, fun _ _ => rfl⟩
  | cons st sts ih =>
    rcases seedStates_cons h with ⟨-, hrest⟩ | ⟨ast, v, eff, defaults', hinit, -, hrest⟩
    · obtain ⟨hbuffers, hpending, hcells⟩ := ih hrest
      exact ⟨hbuffers, hpending, fun n hn => hcells n fun st' hst' => hn st' (List.mem_cons_of_mem st hst')⟩
    · obtain ⟨hbuffers, hpending, hcells⟩ := ih hrest
      refine ⟨hbuffers, hpending, fun n hn => ?_⟩
      rw [hcells n fun st' hst' => hn st' (List.mem_cons_of_mem st hst')]
      exact Frame.cell_setValue_of_ne s.ctx v (hn st List.mem_cons_self (by rw [hinit]; rfl))

theorem seedStates_reads (h : seedStates rt sts s = .ok (t, defaults))
    (hnames : (sts.map (·.name)).Nodup) (hclean : ∀ n, (∃ st ∈ sts, st.initial.isLeft = true ∧ st.name = n) →
      (s.ctx.cell n).var = none ∧ (s.ctx.cell n).int64 = none)
    (hshow : ∀ x ∈ defaults, ({} : Cell D).Takes x.2) :
    ∀ st ∈ sts, st.initial.isLeft = true → (t.ctx.cell st.name).read = defaults.lookup st.name := by
  induction sts generalizing s defaults with
  | nil =>
    intro st hst
    cases hst
  | cons st sts ih =>
    obtain ⟨hnew, hnames'⟩ := List.nodup_cons.mp hnames
    have hother : ∀ st' ∈ sts, st'.name ≠ st.name :=
      fun st' hst' heq => hnew (List.mem_map.mpr ⟨st', hst', heq⟩)
    intro st' hst' hplain
    rcases seedStates_cons h with ⟨⟨samples, hinit⟩, hrest⟩ | ⟨ast, v, eff, defaults', hinit, rfl, hrest⟩
    · rcases List.mem_cons.mp hst' with rfl | hst'
      · rw [hinit] at hplain
        cases hplain
      · exact ih hrest hnames' (fun n ⟨x, hx, hleft, hname⟩ => hclean n ⟨x, List.mem_cons_of_mem st hx, hleft, hname⟩)
          hshow st' hst' hplain
    · have hleft : st.initial.isLeft = true := by rw [hinit]; rfl
      rcases List.mem_cons.mp hst' with rfl | hst'
      · obtain ⟨-, -, hcells⟩ := seedStates_keeps hrest
        obtain ⟨hvar, hint⟩ := hclean st'.name ⟨st', List.mem_cons_self, hleft, rfl⟩
        rw [hcells st'.name fun x hx _ heq => hother x hx heq.symm, List.lookup_cons_self]
        show (Frame.cell (s.ctx.setValue st'.name v) st'.name).read = some v
        rw [Frame.cell_setValue_self]
        exact (Cell.read_put_iff _ v).mpr (Cell.takes_of_clean (hshow _ List.mem_cons_self) hvar hint)
      · have hne : st'.name ≠ st.name := hother st' hst'
        rw [List.lookup_cons, beq_false_of_ne hne]
        refine ih hrest hnames' (fun n ⟨x, hx, hxleft, hname⟩ => ?_)
          (fun x hx => hshow x (List.mem_cons_of_mem _ hx)) st' hst' hplain
        show (Frame.cell (s.ctx.setValue st.name v) n).var = none ∧ (Frame.cell (s.ctx.setValue st.name v) n).int64 = none
        rw [Frame.cell_setValue_of_ne s.ctx v (hname ▸ hother x hx)]
        exact hclean n ⟨x, List.mem_cons_of_mem st hx, hxleft, hname⟩

end

section
variable [Double D]

def tickEvents (rt : Runtime D χ) (p : Program D) (s : Session D χ) : List (Event D) :=
  events rt p.bindings (ready rt p s)

/-- A sequence of successful ticks with the host's writes before each of them and the evaluations of each of them, the
    last tick first. Every tick meets a condition on its session after the writes. -/
inductive Run (rt : Runtime D χ) (p : Program D) (meets : HostWrites D → Session D χ → Prop) (s₀ : Session D χ) :
    List (HostWrites D) → List (List (Event D)) → Session D χ → Prop where
  | start : Run rt p meets s₀ [] [] s₀
  | tick {ws : List (HostWrites D)} {past : List (List (Event D))} {s t : Session D χ} (w : HostWrites D) :
      Run rt p meets s₀ ws past s → meets w (prepare w s) → tick rt p (prepare w s) = (none, t) →
      Run rt p meets s₀ (w :: ws) (tickEvents rt p (prepare w s) :: past) t

theorem finish_keeps (rt : Runtime D χ) (p : Program D) (s : Session D χ) :
    (finish rt p s).2.ctx = s.ctx ∧ (finish rt p s).2.stateBuffers = s.stateBuffers ∧
      (finish rt p s).2.pending = s.pending := by
  obtain ⟨hctx, hbuffers, hpending, -⟩ := captureHistory_keeps rt p.historySpecs (refreshOutputs p s)
  unfold finish
  rcases hcapture : captureHistory rt p.historySpecs (refreshOutputs p s) with ⟨result, t⟩
  rw [hcapture] at hctx hbuffers hpending
  cases result <;> exact ⟨hctx, hbuffers, hpending⟩

section
variable {defaults : List (String × Value D)} {past : List (List (Event D))} {s t : Session D χ} {b : Binding D}

theorem Tracks.ready (h : Tracks rt p defaults past s) (hlimits : LimitsFree p) (hshow : Showable s)
    (hb : b ∈ p.bindings) (hk : b.kind = .stateUpdate) :
    (b.buffer = false → ((ready rt p s).ctx.cell b.name).read = previous defaults b.name past) ∧
    (b.buffer = true → Holding rt p (past.filterMap (computed · b.name)) (ready rt p s) b.name) := by
  obtain ⟨st, hst, hname⟩ := state_of_update hb hk
  obtain ⟨ctx, hclamp, -, hcells⟩ := clampConstants_eq p.constants s
  have hready : Model.ready rt p s =
      { s.pending.foldl (commitValue rt) (clearCachedStructs { s with ctx := ctx }) with pending := [] } := by
    unfold Model.ready commitPending clampConstants
    rw [hclamp]
    rfl
  have hclamped : AgreeAt b.name s (clearCachedStructs { s with ctx := ctx }) :=
    ⟨hcells b.name fun c hc hlimited heq => hlimits c hc hlimited st hst (hname.trans heq), rfl⟩
  generalize clearCachedStructs { s with ctx := ctx } = s₁ at hready hclamped
  rw [hready, h.pending]
  cases past with
  | nil =>
    have hnil : staged (List.headD ([] : List (List (Event D))) []) = [] := rfl
    rw [hnil, List.foldl_nil]
    refine ⟨fun hbuf => ?_, fun hbuf => ?_⟩
    · exact (congrArg Cell.read hclamped.1).trans (h.defaults rfl b hb hk hbuf)
    · exact (h.buffers b hb hk hbuf).congr hclamped
  | cons evs past =>
    obtain ⟨v, hmem, hcomputed⟩ := exists_computed (h.complete evs List.mem_cons_self) hb hk
    obtain ⟨t, hbefore, hafter⟩ :=
      agreeAt_commit_mem rt (staged_names (h.complete evs List.mem_cons_self)) hmem s₁
    have ht : AgreeAt b.name s t := hclamped.trans hbefore
    refine ⟨fun hbuf => ?_, fun hbuf => ?_⟩
    · have hwrite : commitValue rt t (b, v) = { t with ctx := t.ctx.setValue b.name v } := by
        unfold commitValue
        rw [hbuf]
        rfl
      have hcell : ((staged evs).foldl (commitValue rt) s₁).ctx.cell b.name = (s.ctx.cell b.name).put v := by
        rw [hafter.1, hwrite, Frame.cell_setValue_self, ht.1]
      have htakes : (s.ctx.cell b.name).Takes v := hshow (b, v) (by rw [h.pending]; exact hmem) hbuf
      show (Frame.cell ((staged evs).foldl (commitValue rt) s₁).ctx b.name).read = computed evs b.name
      rw [hcell, hcomputed]
      exact (Cell.read_put_iff _ v).mpr htakes
    · have hpush : commitValue rt t (b, v) = pushBuffer rt b.name v t := by
        unfold commitValue
        rw [hbuf]
        rfl
      have hvalues : (evs :: past).filterMap (computed · b.name) = v :: past.filterMap (computed · b.name) := by
        rw [List.filterMap_cons, hcomputed]
      rw [hvalues]
      have hholding := ((h.buffers b hb hk hbuf).congr ht).push v
      rw [← hpush] at hholding
      exact hholding.congr hafter

theorem Tracks.reads (h : Tracks rt p defaults past s) (hlimits : LimitsFree p) (hshow : Showable s)
    (heval : evalBindings rt p.bindings (Model.ready rt p s) = (none, t)) (hb : b ∈ p.bindings) (hk : b.kind = .stateUpdate) :
    ∀ e ∈ tickEvents rt p s, Reads rt p defaults past e.view b := by
  intro e he
  obtain ⟨hplain, hbuffer⟩ := h.ready hlimits hshow hb hk
  obtain ⟨-, hviews⟩ := evalBindings_keeps heval (update_ne_expr hb hk)
  obtain ⟨hcell, hbuffers⟩ := hviews e he
  unfold Reads
  split
  · rename_i hbuf
    obtain ⟨entry, hentry, hlen, hholds, -, hread⟩ := hbuffer hbuf
    refine ⟨?_, entry, ?_, fun i => ?_⟩
    · rw [hcell, hread, published_eq hholds, hlen]
    · rw [hbuffers]
      exact hentry
    · rw [hholds.newest, hlen]
  · rename_i hbuf
    rw [hcell]
    exact hplain (by simpa using hbuf)

theorem Tracks.tick (h : Tracks rt p defaults past s) (hlimits : LimitsFree p) (hshow : Showable s)
    (htick : Model.tick rt p s = (none, t)) : Tracks rt p defaults (tickEvents rt p s :: past) t := by
  unfold Model.tick at htick
  rcases heval : evalBindings rt p.bindings (Model.ready rt p s) with ⟨result, u⟩
  rw [heval] at htick
  cases result with
  | some err => cases htick
  | none =>
    have hfinish : finish rt p u = (none, t) := htick
    obtain ⟨hctx, hbuffers, hpending⟩ := finish_keeps rt p u
    rw [hfinish] at hctx hbuffers hpending
    obtain ⟨hmap, hstaged⟩ := evalBindings_staged heval
    refine ⟨?_, ?_, nofun, fun b hb hk hbuf => ?_⟩
    · rw [hpending, hstaged]
      rfl
    · intro evs hevs
      rcases List.mem_cons.mp hevs with rfl | hevs
      · exact hmap
      · exact h.complete evs hevs
    · obtain ⟨-, hbuffer⟩ := h.ready hlimits hshow hb hk
      obtain ⟨⟨hcell, hkept⟩, -⟩ := evalBindings_keeps heval (update_ne_expr hb hk)
      refine (hbuffer hbuf).congr ⟨?_, ?_⟩
      · rw [hctx, hcell]
      · show t.stateBuffers.find? _ = _
        rw [hbuffers, hkept]
        rfl

end

section
variable {s : Session D χ} {defaults : List (String × Value D)} {children : χ}

theorem mem_newBuffers {sts : List (StateDefault D)} {e : HistoryEntry D} (he : e ∈ newBuffers sts) :
    ∃ st ∈ sts, ∃ samples, st.initial = .inr samples ∧ e = ⟨st.name, newRing samples⟩ := by
  obtain ⟨st, hst, hsome⟩ := List.mem_filterMap.mp he
  cases hinit : st.initial with
  | inl ast => simp [hinit] at hsome
  | inr samples => exact ⟨st, hst, samples, hinit, by simpa [hinit] using hsome.symm⟩

theorem newBuffers_names {sts : List (StateDefault D)} (h : (sts.map (·.name)).Nodup) :
    ((newBuffers sts).map (·.name)).Nodup := by
  induction sts with
  | nil => exact List.nodup_nil
  | cons st sts ih =>
    obtain ⟨hnew, hrest⟩ := List.nodup_cons.mp h
    cases hinit : st.initial with
    | inl ast =>
      have hskip : newBuffers (st :: sts) = newBuffers sts := by simp [newBuffers, hinit]
      rw [hskip]
      exact ih hrest
    | inr samples =>
      have hcons : newBuffers (st :: sts) = ⟨st.name, newRing samples⟩ :: newBuffers sts := by simp [newBuffers, hinit]
      rw [hcons, List.map_cons]
      refine List.nodup_cons.mpr ⟨fun hmem => hnew ?_, ih hrest⟩
      obtain ⟨e, he, hname⟩ := List.mem_map.mp hmem
      obtain ⟨st', hst', samples', -, rfl⟩ := mem_newBuffers he
      exact List.mem_map.mpr ⟨st', hst', hname⟩

def publish (rt : Runtime D χ) (e : HistoryEntry D) : String × Value D := (e.name, .array (published rt e.ring))

theorem ctx_blank : (blank rt p children).ctx =
    ((newBuffers p.stateDefaults).map (publish rt)).foldl (fun f x => f.setValue x.1 x.2) {} := by
  rw [List.foldl_map]
  rfl

variable {st : StateDefault D} {samples : Nat}

omit [Double D] in
theorem samples_of_mem (hst : st ∈ p.stateDefaults) (hinit : st.initial = .inr samples) :
    p.samples st.name = samples := by
  have hfind : p.stateDefaults.find? (·.name == st.name) = some st := find?_of_nodup p.state_names hst
  obtain ⟨name, resultKind, initial⟩ := st
  obtain rfl := hinit
  unfold Program.samples
  rw [hfind]

theorem holding_blank (children : χ) (hst : st ∈ p.stateDefaults)
    (hinit : st.initial = .inr samples) : Holding rt p [] (blank rt p children) st.name := by
  have hmem : ⟨st.name, newRing samples⟩ ∈ newBuffers p.stateDefaults :=
    List.mem_filterMap.mpr ⟨st, hst, by simp [hinit]⟩
  have hcell : (blank rt p children).ctx.cell st.name = ({} : Cell D).put (.array (published rt (newRing samples))) := by
    have hnodup : (((newBuffers p.stateDefaults).map (publish rt)).map (·.1)).Nodup := by
      rw [List.map_map]
      exact newBuffers_names p.state_names
    rw [ctx_blank, cell_foldl_setValue_mem hnodup (List.mem_map.mpr ⟨_, hmem, rfl⟩)]
    rfl
  refine ⟨⟨st.name, newRing samples⟩, find?_of_nodup (newBuffers_names p.state_names) hmem, ?_,
    SampleRing.holds_empty _, by rw [hcell]; rfl, by rw [hcell]; rfl⟩
  rw [samples_of_mem hst hinit]
  exact List.length_replicate

theorem cell_blank (hn : ∀ st ∈ p.stateDefaults, st.initial.isRight = true → st.name ≠ n) :
    (blank rt p children).ctx.cell n = {} := by
  rw [ctx_blank, cell_foldl_setValue]
  · rfl
  · intro x hx heq
    obtain ⟨e, he, rfl⟩ := List.mem_map.mp hx
    obtain ⟨st, hst, samples, hinit, rfl⟩ := mem_newBuffers he
    exact hn st hst (by rw [hinit]; rfl) heq.symm

omit [Double D] in
theorem Holding.withStruct {t : Session D χ} {values : List (Value D)} (h : Holding rt p values s n)
    (hbuffers : t.stateBuffers = s.stateBuffers) (hcell : ∃ struct, t.ctx.cell n = { s.ctx.cell n with struct := struct }) :
    Holding rt p values t n := by
  obtain ⟨entry, hentry, hlen, hholds, hint, hread⟩ := h
  obtain ⟨struct, hcell⟩ := hcell
  refine ⟨entry, ?_, hlen, hholds, ?_, ?_⟩
  · rw [Session.buffer?, hbuffers]
    exact hentry
  · rw [hcell]
    exact hint
  · rw [hcell]
    exact Cell.read_array_with_struct hread struct

theorem pending_sessionNew (h : sessionNew rt p children = .ok (s, defaults)) : s.pending = [] := by
  obtain ⟨seeded, hconstants, hstates⟩ := bind_eq_ok.mp h
  obtain ⟨-, hpending, -⟩ := seedConstants_keeps hconstants
  obtain ⟨-, hpending', -⟩ := seedStates_keeps hstates
  exact hpending'.trans hpending

theorem holding_sessionNew (h : sessionNew rt p children = .ok (s, defaults))
    (hst : st ∈ p.stateDefaults) (hinit : st.initial = .inr samples) : Holding rt p [] s st.name := by
  obtain ⟨s₁, hconstants, hstates⟩ := bind_eq_ok.mp h
  obtain ⟨hbuffers₁, -, hcells₁⟩ := seedConstants_keeps hconstants
  obtain ⟨hbuffers₂, -, hcells₂⟩ := seedStates_keeps hstates
  have hblank := (holding_blank children hst hinit).withStruct hbuffers₁ (hcells₁ st.name)
  refine hblank.withStruct hbuffers₂ ⟨(s.ctx.cell st.name).struct, ?_⟩
  rw [hcells₂ st.name]
  intro st' hst' hplain heq
  obtain rfl := List.inj_on_of_nodup_map p.state_names hst hst' heq
  rw [hinit] at hplain
  cases hplain

theorem tracks_sessionNew (h : sessionNew rt p children = .ok (s, defaults))
    (hshow : ∀ x ∈ defaults, ({} : Cell D).Takes x.2) : Tracks rt p defaults [] s := by
  obtain ⟨s₁, hconstants, hstates⟩ := bind_eq_ok.mp h
  obtain ⟨-, -, hcells₁⟩ := seedConstants_keeps hconstants
  refine ⟨pending_sessionNew h, nofun, fun _ b hb hk hbuf => ?_, fun b hb hk hbuf => ?_⟩
  · obtain ⟨st, hst, hname, hkind⟩ := p.update_known b hb hk
    have hplain : st.initial.isLeft = true := by
      rw [hbuf] at hkind
      cases hinit : st.initial with
      | inl ast => rfl
      | inr samples => rw [hinit] at hkind; cases hkind
    rw [← hname]
    refine seedStates_reads hstates p.state_names (fun n hn => ?_) hshow st hst hplain
    obtain ⟨st', hst', hplain', rfl⟩ := hn
    obtain ⟨struct, hcell⟩ := hcells₁ st'.name
    have hblank : (blank rt p children).ctx.cell st'.name = {} := cell_blank fun st hst hright heq => by
      obtain rfl := List.inj_on_of_nodup_map p.state_names hst hst' heq
      cases hinit : st.initial with
      | inl ast => rw [hinit] at hright; cases hright
      | inr samples => rw [hinit] at hplain'; cases hplain'
    rw [hcell, hblank]
    exact ⟨rfl, rfl⟩
  · obtain ⟨st, hst, hname, hkind⟩ := p.update_known b hb hk
    obtain ⟨samples, hinit⟩ : ∃ samples, st.initial = .inr samples := by
      rw [hbuf] at hkind
      cases hinit : st.initial with
      | inl ast => rw [hinit] at hkind; cases hkind
      | inr samples => exact ⟨samples, rfl⟩
    exact hname ▸ holding_sessionNew h hst hinit

end

section
variable {s₀ s : Session D χ} {defaults : List (String × Value D)} {ws : List (HostWrites D)}
  {past : List (List (Event D))}

theorem Run.staged (hlimits : LimitsFree p) (hstart : Tracks rt p defaults [] s₀)
    (h : Run rt p (fun w s => w.Fits p ∧ Showable s) s₀ ws past s) :
    Staged rt p defaults past ∧ Tracks rt p defaults past s := by
  induction h with
  | start => exact ⟨trivial, hstart⟩
  | @tick ws past s t w _ hmeets htick ih =>
    obtain ⟨hstaged, htracks⟩ := ih
    obtain ⟨hfits, hshow⟩ := hmeets
    have hprepared := htracks.prepare hfits
    refine ⟨⟨fun e he b hb hk => ?_, hstaged⟩, hprepared.tick hlimits hshow htick⟩
    rcases heval : evalBindings rt p.bindings (ready rt p (Model.prepare w s)) with ⟨result, u⟩
    cases result with
    | some err =>
      unfold Model.tick at htick
      rw [heval] at htick
      cases htick
    | none => exact hprepared.reads hlimits hshow heval hb hk e he

end

end
end Cxpr.Model
