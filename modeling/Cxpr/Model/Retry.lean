import Cxpr.Model.Expressions

/-! What a failed tick leaves behind. A tick that fails in a binding has committed the staged updates, written some of
    the expressions and nothing else; the next tick commits nothing and writes these expressions again before anything
    reads them. -/

namespace Cxpr.Model
variable {D χ : Type}

section
variable {c c' : Cell D} {t : ValueType} {v : Value D}

def Overlaid (t : ValueType) (c c' : Cell D) : Prop := c' = c ∨ ∃ u : Value D, u.type = t ∧ c' = c.put u

def Shows (t : ValueType) (c : Cell D) : Prop := ∀ v, c.read = some v → v.type = t

theorem put_put (c : Cell D) {u v : Value D} (h : u.type = v.type) : (c.put u).put v = c.put v := by
  cases u <;> cases v <;> first | rfl | cases h

theorem Overlaid.put_eq (h : Overlaid t c c') (hv : v.type = t) : c'.put v = c.put v := by
  obtain rfl | ⟨u, hu, rfl⟩ := h
  · rfl
  · exact put_put c (hu.trans hv.symm)

theorem Overlaid.put (h : Overlaid t c c') (hv : v.type = t) : Overlaid t c (c'.put v) :=
  Or.inr ⟨v, hv, h.put_eq hv⟩

theorem Shows.put (h : Shows t c) (hv : v.type = t) : Shows t (c.put v) := by
  subst hv
  obtain ⟨var, bool, int64, string, array, struct⟩ := c
  intro u hu
  cases v with
  | number d => cases hu; rfl
  | bool b => cases hu; rfl
  | int64 i => cases hu; rfl
  | string str =>
    -- an int64 that stands before the string was read before it was written
    cases int64 with
    | none => cases hu; rfl
    | some i => cases bool with
      | none => cases h (.int64 i) rfl
      | some b => cases h (.bool b) rfl
  | array a =>
    cases int64 with
    | none => cases hu; rfl
    | some i => cases bool with
      | none => cases h (.int64 i) rfl
      | some b => cases h (.bool b) rfl
  | struct fields =>
    cases bool with
    | some b => cases h (.bool b) rfl
    | none => cases int64 with
      | some i => cases h (.int64 i) rfl
      | none => cases string with
        | some str => cases h (.string str) rfl
        | none => cases array with
          | some a => cases h (.array a) rfl
          | none => cases var with
            | some d => cases h (.number d) rfl
            | none => cases hu; rfl
  | null => exact h u hu
  | timestamp _ => exact h u hu
  | duration _ => exact h u hu

end

def exprNames (bs : List (Binding D)) (n : String) : Prop := ∃ b ∈ bs, b.kind = .expr ∧ b.name = n

theorem exprNames_mono {bs bs' : List (Binding D)} (hsub : ∀ b ∈ bs, b ∈ bs') {n : String} (h : exprNames bs n) :
    exprNames bs' n := by
  obtain ⟨b, hb, hk, hname⟩ := h
  exact ⟨b, hsub b hb, hk, hname⟩

structure View.AgreeOff (names : String → Prop) (view view' : View D) : Prop where
  cell : ∀ n, ¬ names n → view'.cell n = view.cell n
  params : view'.params = view.params
  histories : view'.histories = view.histories
  stateBuffers : view'.stateBuffers = view.stateBuffers

def Local (rt : Runtime D χ) (bs : List (Binding D)) (dep : Binding D → Binding D → Prop) : Prop :=
  ∀ a ∈ bs, ∀ view view' eff, view.AgreeOff (fun n => ∃ b ∈ bs, ¬ dep a b ∧ b.kind = .expr ∧ b.name = n) view' →
    rt.eval a.resultKind a.ast view' eff = rt.eval a.resultKind a.ast view eff

/-- On variables of the given types, and on the given parameters, every expression has the type of its name. -/
def Typed (rt : Runtime D χ) (bs : List (Binding D)) (types : String → ValueType) (params : Params D) : Prop :=
  ∀ b ∈ bs, b.kind = .expr → ∀ view eff v eff', view.params = params → (∀ n, Shows (types n) (view.cell n)) →
    rt.eval b.resultKind b.ast view eff = (.ok v, eff') → v.type = types b.name

/-- A session shows values of the given types, and will do so when what is staged is committed. -/
structure Session.Typed (types : String → ValueType) (s : Session D χ) : Prop where
  cells : ∀ n, Shows (types n) (s.ctx.cell n)
  pending : ∀ x ∈ s.pending, if x.1.buffer then types x.1.name = .array else x.2.type = types x.1.name

def LimitsApart (p : Program D) : Prop :=
  ∀ c ∈ p.constants, c.limited = true →
    c.name ∉ p.inputs ∧ (∀ b ∈ p.bindings, b.name ≠ c.name) ∧ ∀ st ∈ p.stateDefaults, st.name ≠ c.name

def Quiet (rt : Runtime D χ) (b : Binding D) : Prop :=
  ∀ view eff, (rt.eval b.resultKind b.ast view eff).2.children = eff.children

/-! ### A failed pass over the bindings -/

variable {rt : Runtime D χ} {p : Program D} {types : String → ValueType}

structure Passed (types : String → ValueType) (bs : List (Binding D)) (s t : Session D χ) : Prop where
  cell : ∀ n, ¬ exprNames bs n → t.ctx.cell n = s.ctx.cell n
  written : ∀ n, exprNames bs n → Overlaid (types n) (s.ctx.cell n) (t.ctx.cell n)
  shows : ∀ n, Shows (types n) (t.ctx.cell n)
  params : t.ctx.paramStores = s.ctx.paramStores
  outputs : t.outputs = s.outputs
  histories : t.histories = s.histories
  stateBuffers : t.stateBuffers = s.stateBuffers

section
variable {s t u : Session D χ} {b : Binding D} {bs : List (Binding D)} {v : Value D} {eff : Effects D χ}

theorem Passed.refl (hshows : ∀ n, Shows (types n) (s.ctx.cell n)) : Passed types [] s s :=
  ⟨fun _ _ => rfl, fun _ _ => Or.inl rfl, hshows, rfl, rfl, rfl, rfl⟩

theorem Passed.effects (h : Passed types bs s t) (eff : Effects D χ) (pending : List (Binding D × Value D)) :
    Passed types bs s { t with effects := eff, pending := pending } := { h with }

theorem Passed.assign (h : Passed types bs s t) (hv : b.kind = .expr → v.type = types b.name) (eff : Effects D χ) :
    Passed types (bs ++ [b]) s (assign b v { t with effects := eff }) := by
  obtain ⟨houtputs, hhistories, hbuffers, -, hparams⟩ := assign_frame b v { t with effects := eff }
  have hcell : ∀ n, (b.kind = .expr → n ≠ b.name) →
      (Model.assign b v { t with effects := eff }).ctx.cell n = t.ctx.cell n :=
    fun n hn => cell_assign_of_ne v { t with effects := eff } hn
  have hself : b.kind = .expr → (Model.assign b v { t with effects := eff }).ctx.cell b.name = (t.ctx.cell b.name).put v := by
    intro hk
    unfold Model.assign
    rw [hk]
    exact Frame.cell_setValue_self t.ctx b.name v
  refine ⟨fun n hn => ?_, fun n hn => ?_, fun n => ?_, hparams.trans h.params, houtputs.trans h.outputs,
    hhistories.trans h.histories, hbuffers.trans h.stateBuffers⟩
  · have hne : b.kind = .expr → n ≠ b.name := fun hk heq => hn ⟨b, by simp, hk, heq.symm⟩
    have hold : ¬ exprNames bs n := fun ⟨a, ha, hk, hname⟩ => hn ⟨a, by simp [ha], hk, hname⟩
    rw [hcell n hne, h.cell n hold]
  · by_cases hb : b.kind = .expr ∧ n = b.name
    · obtain ⟨hk, rfl⟩ := hb
      rw [hself hk]
      by_cases hold : exprNames bs b.name
      · exact (h.written b.name hold).put (hv hk)
      · rw [h.cell b.name hold]
        exact Or.inr ⟨v, hv hk, rfl⟩
    · rw [hcell n fun hk heq => hb ⟨hk, heq⟩]
      obtain ⟨a, ha, hk, hname⟩ := hn
      refine h.written n ⟨a, ?_, hk, hname⟩
      rcases List.mem_append.mp ha with ha | ha
      · exact ha
      · obtain rfl := List.mem_singleton.mp ha
        exact absurd ⟨hk, hname.symm⟩ hb
  · by_cases hb : b.kind = .expr ∧ n = b.name
    · obtain ⟨hk, rfl⟩ := hb
      rw [hself hk]
      exact (h.shows b.name).put (hv hk)
    · rw [hcell n fun hk heq => hb ⟨hk, heq⟩]
      exact h.shows n

variable {pre : List (Binding D)}

theorem Passed.evalBindings (htyped : Typed rt bs types s.ctx.paramStores)
    (h : Passed types pre s t) (heval : evalBindings rt bs t = (none, u)) : Passed types (pre ++ bs) s u := by
  induction bs generalizing t pre with
  | nil =>
    cases heval
    rw [List.append_nil]
    exact h
  | cons b bs ih =>
    obtain ⟨v, eff, hb, hrest, -⟩ := evalBindings_cons heval
    have hv : b.kind = .expr → v.type = types b.name := fun hk =>
      htyped b List.mem_cons_self hk t.view t.effects v eff h.params h.shows hb
    have hstep := ih (fun a ha => htyped a (List.mem_cons_of_mem b ha)) (h.assign hv eff) hrest
    rwa [List.append_assoc] at hstep

theorem evalBindings_append (h : evalBindings rt pre s = (none, t)) (bs : List (Binding D)) :
    evalBindings rt (pre ++ bs) s = evalBindings rt bs t := by
  induction pre generalizing s with
  | nil =>
    cases h
    rfl
  | cons b pre ih =>
    obtain ⟨v, eff, hb, hrest, -⟩ := evalBindings_cons h
    rw [List.cons_append, evalBindings, hb]
    exact ih hrest

theorem evalBindings_children (hquiet : ∀ b ∈ bs, Quiet rt b) (h : evalBindings rt bs s = (none, t)) :
    t.effects.children = s.effects.children := by
  induction bs generalizing s with
  | nil =>
    cases h
    rfl
  | cons b bs ih =>
    obtain ⟨v, eff, hb, hrest, -⟩ := evalBindings_cons h
    have hchildren := hquiet b List.mem_cons_self s.view s.effects
    rw [hb] at hchildren
    rw [ih (fun a ha => hquiet a (List.mem_cons_of_mem b ha)) hrest, (assign_frame b v _).2.2.2.1]
    exact hchildren

def FailsAt (rt : Runtime D χ) (pre : List (Binding D)) (b : Binding D) (s : Session D χ) : Prop :=
  ∃ t err eff, evalBindings rt pre s = (none, t) ∧ rt.eval b.resultKind b.ast t.view t.effects = (.error err, eff)

theorem FailsAt.passed (h : FailsAt rt pre b s) (post : List (Binding D))
    (hshows : ∀ n, Shows (types n) (s.ctx.cell n)) (htyped : Typed rt (pre ++ b :: post) types s.ctx.paramStores)
    (hquiet : ∀ a ∈ pre ++ [b], Quiet rt a) :
    ∃ err t, evalBindings rt (pre ++ b :: post) s = (some err, t) ∧ Passed types (pre ++ b :: post) s t ∧ t.pending = [] ∧
      t.effects.children = s.effects.children := by
  obtain ⟨t, err, eff, hpre, hb⟩ := h
  have hpassed := Passed.evalBindings (fun a ha => htyped a (List.mem_append_left _ ha)) (Passed.refl hshows) hpre
  rw [List.nil_append] at hpassed
  refine ⟨err, { t with effects := eff, pending := [] }, ?_, ?_, rfl, ?_⟩
  · rw [evalBindings_append hpre, evalBindings, hb]
  · refine { hpassed.effects eff [] with cell := fun n hn => ?_, written := fun n _ => ?_ }
    · exact hpassed.cell n fun hpre => hn (exprNames_mono (fun a ha => List.mem_append_left _ ha) hpre)
    · by_cases hpre : exprNames pre n
      · exact hpassed.written n hpre
      · exact Or.inl (hpassed.cell n hpre)
  · have hchildren := hquiet b (by simp) t.view t.effects
    rw [hb] at hchildren
    exact hchildren.trans (evalBindings_children (fun a ha => hquiet a (List.mem_append_left _ ha)) hpre)

end

structure Stale (types : String → ValueType) (bs : List (Binding D)) (s t : Session D χ) : Prop where
  cell : ∀ n, ¬ exprNames bs n → t.ctx.cell n = s.ctx.cell n
  stale : ∀ n, exprNames bs n → Overlaid (types n) (s.ctx.cell n) (t.ctx.cell n)
  params : t.ctx.paramStores = s.ctx.paramStores
  effects : t.effects = s.effects
  outputs : t.outputs = s.outputs
  histories : t.histories = s.histories
  stateBuffers : t.stateBuffers = s.stateBuffers
  pending : t.pending = s.pending

section
variable {s t u : Session D χ} {b : Binding D} {bs : List (Binding D)} {v : Value D}

theorem Stale.same (h : Stale types [] s t) : Same s t where
  ctx := ⟨fun n => h.cell n (by rintro ⟨b, hb, -⟩; cases hb), h.params⟩
  effects := h.effects
  outputs := h.outputs
  histories := h.histories
  stateBuffers := h.stateBuffers
  pending := by rw [h.pending]

theorem Stale.view (h : Stale types bs s t) : s.view.AgreeOff (exprNames bs) t.view :=
  ⟨h.cell, h.params, h.histories, h.stateBuffers⟩

theorem Stale.assign (h : Stale types (b :: bs) s t) (hv : b.kind = .expr → v.type = types b.name) (eff : Effects D χ) :
    Stale types bs (assign b v { s with effects := eff }) (assign b v { t with effects := eff }) := by
  obtain ⟨houtputs, hhistories, hbuffers, heffects, hparams⟩ := assign_frame b v { s with effects := eff }
  obtain ⟨houtputs', hhistories', hbuffers', heffects', hparams'⟩ := assign_frame b v { t with effects := eff }
  have hcell : ∀ r : Session D χ, ∀ n, (b.kind = .expr → n ≠ b.name) →
      (Model.assign b v { r with effects := eff }).ctx.cell n = r.ctx.cell n :=
    fun r n hn => cell_assign_of_ne v { r with effects := eff } hn
  have hself : b.kind = .expr → (Model.assign b v { t with effects := eff }).ctx.cell b.name =
      (Model.assign b v { s with effects := eff }).ctx.cell b.name := by
    intro hk
    unfold Model.assign
    rw [hk]
    show (t.ctx.setValue b.name v).cell b.name = (s.ctx.setValue b.name v).cell b.name
    rw [Frame.cell_setValue_self, Frame.cell_setValue_self]
    exact (h.stale b.name ⟨b, List.mem_cons_self, hk, rfl⟩).put_eq (hv hk)
  refine ⟨fun n hn => ?_, fun n hn => ?_, ?_, heffects'.trans heffects.symm, ?_, ?_, ?_, ?_⟩
  · by_cases hb : b.kind = .expr ∧ n = b.name
    · obtain ⟨hk, rfl⟩ := hb
      exact hself hk
    · have hne : b.kind = .expr → n ≠ b.name := fun hk heq => hb ⟨hk, heq⟩
      rw [hcell s n hne, hcell t n hne]
      refine h.cell n ?_
      rintro ⟨a, ha, hk, hname⟩
      rcases List.mem_cons.mp ha with rfl | ha
      · exact hne hk hname.symm
      · exact hn ⟨a, ha, hk, hname⟩
  · by_cases hb : b.kind = .expr ∧ n = b.name
    · obtain ⟨hk, rfl⟩ := hb
      exact Or.inl (hself hk)
    · have hne : b.kind = .expr → n ≠ b.name := fun hk heq => hb ⟨hk, heq⟩
      rw [hcell s n hne, hcell t n hne]
      obtain ⟨a, ha, hk, hname⟩ := hn
      exact h.stale n ⟨a, List.mem_cons_of_mem b ha, hk, hname⟩
  · rw [hparams, hparams']
    exact h.params
  · rw [houtputs, houtputs']
    exact h.outputs
  · rw [hhistories, hhistories']
    exact h.histories
  · rw [hbuffers, hbuffers']
    exact h.stateBuffers
  · rw [pending_assign, pending_assign]
    exact congrArg (· ++ _) h.pending

theorem Stale.evalBindings {all : List (Binding D)} {dep : Binding D → Binding D → Prop} (hlocal : Local rt all dep)
    (hall : bs ⊆ all) (hordered : Reorder.Ordered dep bs) (hself : ∀ b ∈ bs, ¬ dep b b)
    (htyped : Typed rt bs types s.ctx.paramStores) (hshows : ∀ n, Shows (types n) (s.ctx.cell n))
    (h : Stale types bs s t) (heval : evalBindings rt bs t = (none, u)) :
    ∃ u', Model.evalBindings rt bs s = (none, u') ∧ Same u' u := by
  induction bs generalizing s t with
  | nil =>
    cases heval
    exact ⟨s, rfl, h.same⟩
  | cons b bs ih =>
    obtain ⟨v, eff, hb, hrest, -⟩ := evalBindings_cons heval
    obtain ⟨hhead, htail⟩ := List.pairwise_cons.mp hordered
    -- the binding depends on none of the expressions that are still to be written
    have hfree : ∀ n, exprNames (b :: bs) n → ∃ a ∈ all, ¬ dep b a ∧ a.kind = .expr ∧ a.name = n := by
      rintro n ⟨a, ha, hk, hname⟩
      refine ⟨a, hall ha, ?_, hk, hname⟩
      rcases List.mem_cons.mp ha with rfl | ha
      · exact hself a List.mem_cons_self
      · exact hhead a ha
    have hagree : s.view.AgreeOff (fun n => ∃ a ∈ all, ¬ dep b a ∧ a.kind = .expr ∧ a.name = n) t.view :=
      { h.view with cell := fun n hn => h.view.cell n fun hexpr => hn (hfree n hexpr) }
    have hb' : rt.eval b.resultKind b.ast s.view s.effects = (.ok v, eff) := by
      rw [← hlocal b (hall List.mem_cons_self) s.view t.view s.effects hagree, ← h.effects]
      exact hb
    have hv : b.kind = .expr → v.type = types b.name := fun hk =>
      htyped b List.mem_cons_self hk s.view s.effects v eff rfl hshows hb'
    have hparams := (assign_frame b v { s with effects := eff }).2.2.2.2
    have hpassed := (Passed.refl hshows).assign hv eff
    have hrest' := ih (fun a ha => hall (List.mem_cons_of_mem b ha)) htail (fun a ha => hself a (List.mem_cons_of_mem b ha))
      (by rw [hparams]; exact fun a ha => htyped a (List.mem_cons_of_mem b ha)) hpassed.shows (h.assign hv eff) hrest
    obtain ⟨u', heval', hsame⟩ := hrest'
    refine ⟨u', ?_, hsame⟩
    rw [Model.evalBindings, hb']
    exact heval'

end

section
variable {inputs : List (String × Value D)} {f g : Frame D} {n : String}

theorem cell_inputs_congr (inputs : List (String × Value D)) (h : g.cell n = f.cell n) :
    (inputs.foldl (fun f x => f.setValue x.1 x.2) g).cell n = (inputs.foldl (fun f x => f.setValue x.1 x.2) f).cell n := by
  induction inputs generalizing f g with
  | nil => exact h
  | cons x inputs ih =>
    refine ih ?_
    rw [Frame.cell_setValue, Frame.cell_setValue, h]

theorem overlaid_inputs (htypes : ∀ x ∈ inputs, x.2.type = types x.1) (h : Overlaid (types n) (f.cell n) (g.cell n)) :
    Overlaid (types n) (f.cell n) ((inputs.foldl (fun f x => f.setValue x.1 x.2) g).cell n) := by
  induction inputs generalizing g with
  | nil => exact h
  | cons x inputs ih =>
    refine ih (fun y hy => htypes y (List.mem_cons_of_mem x hy)) ?_
    rw [Frame.cell_setValue]
    split
    · rename_i hname
      subst hname
      exact h.put (htypes x List.mem_cons_self)
    · exact h

theorem cell_inputs_again (htypes : ∀ x ∈ inputs, x.2.type = types x.1) (hn : ∃ x ∈ inputs, x.1 = n)
    (h : Overlaid (types n) (f.cell n) (g.cell n)) :
    (inputs.foldl (fun f x => f.setValue x.1 x.2) g).cell n = (inputs.foldl (fun f x => f.setValue x.1 x.2) f).cell n := by
  induction inputs generalizing f g with
  | nil =>
    obtain ⟨x, hx, -⟩ := hn
    cases hx
  | cons x inputs ih =>
    by_cases hname : n = x.1
    · subst hname
      refine cell_inputs_congr inputs ?_
      rw [Frame.cell_setValue_self, Frame.cell_setValue_self]
      exact h.put_eq (htypes x List.mem_cons_self)
    · refine ih (fun y hy => htypes y (List.mem_cons_of_mem x hy)) ?_ ?_
      · obtain ⟨y, hy, rfl⟩ := hn
        rcases List.mem_cons.mp hy with rfl | hy
        · exact absurd rfl hname
        · exact ⟨y, hy, rfl⟩
      · rw [Frame.cell_setValue_of_ne f x.2 hname, Frame.cell_setValue_of_ne g x.2 hname]
        exact h

theorem shows_inputs (htypes : ∀ x ∈ inputs, x.2.type = types x.1) (h : ∀ n, Shows (types n) (f.cell n)) :
    ∀ n, Shows (types n) ((inputs.foldl (fun f x => f.setValue x.1 x.2) f).cell n) := by
  induction inputs generalizing f with
  | nil => exact h
  | cons x inputs ih =>
    refine ih (fun y hy => htypes y (List.mem_cons_of_mem x hy)) fun n => ?_
    rw [Frame.cell_setValue]
    split
    · rename_i hname
      subst hname
      exact (h x.1).put (htypes x List.mem_cons_self)
    · exact h n

theorem paramStores_inputs (inputs : List (String × Value D)) (f : Frame D) :
    (inputs.foldl (fun f x => f.setValue x.1 x.2) f).paramStores = f.paramStores := by
  induction inputs generalizing f with
  | nil => rfl
  | cons x inputs ih =>
    rw [List.foldl_cons, ih]
    exact Frame.paramStores_setValue f x.1 x.2

end

section
variable {s t : Session D χ}

theorem commit_congr (rt : Runtime D χ) (l : List (Binding D × Value D)) (h : t.stateBuffers = s.stateBuffers) :
    (l.foldl (commitValue rt) t).stateBuffers = (l.foldl (commitValue rt) s).stateBuffers ∧
      ∀ n, t.ctx.cell n = s.ctx.cell n →
        (l.foldl (commitValue rt) t).ctx.cell n = (l.foldl (commitValue rt) s).ctx.cell n := by
  induction l generalizing s t with
  | nil => exact ⟨h, fun _ hn => hn⟩
  | cons x l ih =>
    have hstep : (commitValue rt t x).stateBuffers = (commitValue rt s x).stateBuffers := by
      rw [commitValue_eq, commitValue_eq, h]
    obtain ⟨hbuffers, hcells⟩ := ih hstep
    refine ⟨hbuffers, fun n hn => hcells n ?_⟩
    rw [commitValue_eq, commitValue_eq, h, Frame.cell_setValue, Frame.cell_setValue, hn]

theorem type_committedValue (rt : Runtime D χ) {x : Binding D × Value D} (entries : List (HistoryEntry D))
    (hx : if x.1.buffer then types x.1.name = .array else x.2.type = types x.1.name) :
    committedValue rt entries x = .null ∨ (committedValue rt entries x).type = types x.1.name := by
  unfold committedValue
  split at hx
  · rename_i hbuf
    rw [if_pos hbuf]
    split
    · exact Or.inl rfl
    · split
      · exact Or.inl rfl
      · exact Or.inr hx.symm
  · rename_i hbuf
    rw [if_neg hbuf]
    exact Or.inr hx

theorem shows_commit (l : List (Binding D × Value D))
    (hl : ∀ x ∈ l, if x.1.buffer then types x.1.name = .array else x.2.type = types x.1.name)
    (h : ∀ n, Shows (types n) (s.ctx.cell n)) :
    ∀ n, Shows (types n) ((l.foldl (commitValue rt) s).ctx.cell n) := by
  induction l generalizing s with
  | nil => exact h
  | cons x l ih =>
    refine ih (fun y hy => hl y (List.mem_cons_of_mem x hy)) fun n => ?_
    rw [commitValue_eq, Frame.cell_setValue]
    split
    · rename_i hname
      subst hname
      rcases type_committedValue rt s.stateBuffers (hl x List.mem_cons_self) with hnull | htype
      · rw [hnull]
        exact h x.1.name
      · exact (h x.1.name).put htype
    · exact h n

end

section
variable {s t : Session D χ}

structure Tame (p : Program D) (s : Session D χ) : Prop where
  pending : ∀ x ∈ s.pending, x.1 ∈ p.bindings ∧ x.1.kind = .stateUpdate
  limits : ∀ c ∈ p.constants, c.limited = true → (s.ctx.cell c.name).var = none ∧ (s.ctx.cell c.name).bool = none

theorem Tame.prepare (h : Tame p s) (hlimits : LimitsApart p) {w : HostWrites D} (hw : ∀ x ∈ w.inputs, x.1 ∈ p.inputs) :
    Tame p (prepare w s) where
  pending := h.pending
  limits c hc hlimited := by
    have hinputs : ((w.inputs.foldl (fun f x => f.setValue x.1 x.2) s.ctx).cell c.name) = s.ctx.cell c.name :=
      cell_foldl_setValue w.inputs s.ctx fun x hx heq => (hlimits c hc hlimited).1 (heq ▸ hw x hx)
    have hcell := h.limits c hc hlimited
    rw [← hinputs] at hcell
    show (Frame.cell (w.params.foldl _ _) c.name).var = none ∧ (Frame.cell (w.params.foldl _ _) c.name).bool = none
    generalize w.inputs.foldl (fun f x => f.setValue x.1 x.2) s.ctx = f at hcell
    induction w.params generalizing f with
    | nil => exact hcell
    | cons x params ih =>
      refine ih _ ?_
      obtain ⟨struct, hstruct⟩ := Frame.cell_setParamValue f x.1 c.name x.2
      rw [hstruct]
      exact hcell

theorem evalBindings_tame (rt : Runtime D χ) (bs : List (Binding D)) (s : Session D χ) :
    (∀ x ∈ (evalBindings rt bs s).2.pending, x ∈ s.pending ∨ x.1 ∈ bs ∧ x.1.kind = .stateUpdate) ∧
      ∀ n, ¬ exprNames bs n → (evalBindings rt bs s).2.ctx.cell n = s.ctx.cell n := by
  induction bs generalizing s with
  | nil => exact ⟨fun x hx => Or.inl hx, fun _ _ => rfl⟩
  | cons b bs ih =>
    unfold evalBindings
    rcases rt.eval b.resultKind b.ast s.view s.effects with ⟨result, eff⟩
    cases result with
    | error err => exact ⟨fun x hx => (by cases hx), fun _ _ => rfl⟩
    | ok v =>
      obtain ⟨hpending, hcells⟩ := ih (assign b v { s with effects := eff })
      refine ⟨fun x hx => ?_, fun n hn => ?_⟩
      · rcases hpending x hx with hx | ⟨hx, hk⟩
        · rw [pending_assign] at hx
          rcases List.mem_append.mp hx with hx | hx
          · exact Or.inl hx
          · split at hx
            · rename_i hk
              obtain rfl := List.mem_singleton.mp hx
              exact Or.inr ⟨List.mem_cons_self, hk⟩
            · cases hx
        · exact Or.inr ⟨List.mem_cons_of_mem b hx, hk⟩
      · have hrest : ¬ exprNames bs n := fun h => hn (exprNames_mono (fun a => List.mem_cons_of_mem b) h)
        exact (hcells n hrest).trans
          (cell_assign_of_ne v { s with effects := eff } fun hk heq => hn ⟨b, List.mem_cons_self, hk, heq.symm⟩)

theorem Tame.commit (h : Tame p s) (rt : Runtime D χ) (hlimits : LimitsApart p) {c : Constant D} (hc : c ∈ p.constants)
    (hlimited : c.limited = true) :
    (s.pending.foldl (commitValue rt) (clearCachedStructs s)).ctx.cell c.name = s.ctx.cell c.name := by
  obtain ⟨-, hbindings, -⟩ := hlimits c hc hlimited
  exact (agreeAt_commit s.pending (clearCachedStructs s) fun x hx heq => hbindings x.1 (h.pending x hx).1 heq.symm).1

variable [Double D]

theorem get_eq_none {n : String} (h : (s.ctx.cell n).var = none ∧ (s.ctx.cell n).bool = none) : s.get n = none := by
  obtain ⟨hvar, hbool⟩ := h
  unfold Session.get Session.getTyped Cell.read
  rw [hvar, hbool]
  cases (s.ctx.cell n).int64 <;> cases (s.ctx.cell n).string <;> cases (s.ctx.cell n).array <;>
    cases (s.ctx.cell n).struct <;> cases s.effects.cached n <;> rfl

theorem clampConstants_eq_self (cs : List (Constant D))
    (h : ∀ c ∈ cs, c.limited = true → (s.ctx.cell c.name).var = none ∧ (s.ctx.cell c.name).bool = none) :
    cs.foldl clampConstant s = s := by
  induction cs with
  | nil => rfl
  | cons c cs ih =>
    have hc : clampConstant s c = s := by
      unfold clampConstant
      split
      · rename_i hlimited
        rw [get_eq_none (h c List.mem_cons_self hlimited)]
      · rfl
    rw [List.foldl_cons, hc]
    exact ih fun c' hc' => h c' (List.mem_cons_of_mem c hc')

theorem Tame.ready_eq (h : Tame p s) (rt : Runtime D χ) : ready rt p s = commitPending rt (clearCachedStructs s) := by
  unfold ready clampConstants
  rw [clampConstants_eq_self p.constants h.limits]

theorem tick_keeps (rt : Runtime D χ) (p : Program D) (s : Session D χ) :
    (tick rt p s).2.ctx = (evalBindings rt p.bindings (ready rt p s)).2.ctx ∧
      (tick rt p s).2.pending = (evalBindings rt p.bindings (ready rt p s)).2.pending := by
  unfold tick
  rcases evalBindings rt p.bindings (ready rt p s) with ⟨result, t⟩
  cases result with
  | some err => exact ⟨rfl, rfl⟩
  | none =>
    obtain ⟨hctx, -, hpending⟩ := finish_keeps rt p t
    exact ⟨hctx, hpending⟩

theorem Tame.tick (h : Tame p s) (rt : Runtime D χ) (hlimits : LimitsApart p) : Tame p (tick rt p s).2 := by
  obtain ⟨hctx, hpending⟩ := tick_keeps rt p s
  obtain ⟨hstaged, hcells⟩ := evalBindings_tame rt p.bindings (ready rt p s)
  refine ⟨fun x hx => ?_, fun c hc hlimited => ?_⟩
  · rw [hpending] at hx
    rcases hstaged x hx with hx | hx
    · cases hx
    · exact hx
  · obtain ⟨-, hbindings, -⟩ := hlimits c hc hlimited
    have hexpr : ¬ exprNames p.bindings c.name := fun ⟨b, hb, _, hname⟩ => hbindings b hb hname
    rw [hctx, hcells c.name hexpr, h.ready_eq rt]
    show (Frame.cell (s.pending.foldl (commitValue rt) (clearCachedStructs s)).ctx c.name).var = none ∧
      (Frame.cell (s.pending.foldl (commitValue rt) (clearCachedStructs s)).ctx c.name).bool = none
    rw [h.commit rt hlimits hc hlimited]
    exact h.limits c hc hlimited

theorem tame_sessionNew {children : χ} {defaults : List (String × Value D)} (hlimits : LimitsApart p)
    (h : sessionNew rt p children = .ok (s, defaults)) : Tame p s := by
  obtain ⟨s₁, hconstants, hstates⟩ := bind_eq_ok.mp h
  obtain ⟨-, hpending₁, hcells₁⟩ := seedConstants_keeps hconstants
  obtain ⟨-, hpending₂, hcells₂⟩ := seedStates_keeps hstates
  refine ⟨?_, fun c hc hlimited => ?_⟩
  · rw [hpending₂, hpending₁]
    exact nofun
  · obtain ⟨-, -, hnames⟩ := hlimits c hc hlimited
    have hblank : (blank rt p children).ctx.cell c.name = {} := cell_blank fun st hst _ => hnames st hst
    obtain ⟨struct, hstruct⟩ := hcells₁ c.name
    rw [hcells₂ c.name fun st hst _ heq => hnames st hst heq.symm, hstruct, hblank]
    exact ⟨rfl, rfl⟩

/-- The sessions that ticks lead to, whether they succeed or fail; before each of them the host writes inputs, and
    parameters. -/
inductive Reached (rt : Runtime D χ) (p : Program D) (s₀ : Session D χ) : Session D χ → Prop
  | start : Reached rt p s₀ s₀
  | tick {s : Session D χ} (w : HostWrites D) (hs : Reached rt p s₀ s) (hw : ∀ x ∈ w.inputs, x.1 ∈ p.inputs) :
    Reached rt p s₀ (tick rt p (prepare w s)).2

def supply (inputs : List (String × Value D)) (s : Session D χ) : Session D χ := prepare ⟨inputs, []⟩ s

def Supplied (p : Program D) (types : String → ValueType) (inputs : List (String × Value D)) : Prop :=
  ∀ x ∈ inputs, x.1 ∈ p.inputs ∧ x.2.type = types x.1

/-- A tick that fails in the evaluation of a binding, before it can have ticked a child session. -/
def FailsEarly (rt : Runtime D χ) (p : Program D) (s : Session D χ) : Prop :=
  ∃ pre b post, p.bindings = pre ++ b :: post ∧ (∀ a ∈ pre ++ [b], Quiet rt a) ∧ FailsAt rt pre b (ready rt p s)

theorem FailsEarly.tick (h : FailsEarly rt p s) : ∃ err, (tick rt p s).1 = some err := by
  obtain ⟨pre, b, post, hbindings, -, t, err, eff, hpre, hb⟩ := h
  refine ⟨err, ?_⟩
  unfold Model.tick
  rw [hbindings, evalBindings_append hpre, evalBindings, hb]

variable {inputs inputs' : List (String × Value D)} {dep : Binding D → Binding D → Prop}

omit [Double D] in
theorem Tame.supply (h : Tame p s) (hlimits : LimitsApart p) (hinputs : Supplied p types inputs) :
    Tame p (supply inputs s) :=
  h.prepare hlimits fun x hx => (hinputs x hx).1

theorem stale_ready {f : Session D χ} (htame : Tame p s) (hlimits : LimitsApart p) (hinputs : Supplied p types inputs)
    (hinputs' : Supplied p types inputs') (hcover : ∀ x ∈ inputs, ∃ y ∈ inputs', y.1 = x.1)
    (hf : Passed types p.bindings (ready rt p (supply inputs s)) f) (hftame : Tame p f) (hpending : f.pending = [])
    (hchildren : f.effects.children = (ready rt p (supply inputs s)).effects.children) :
    Stale types p.bindings (ready rt p (supply inputs' s)) (ready rt p (supply inputs' f)) := by
  have hready : ∀ {ins}, Supplied p types ins → ready rt p (supply ins s) =
      { s.pending.foldl (commitValue rt) (clearCachedStructs (supply ins s)) with pending := [] } :=
    fun hins => (htame.supply hlimits hins).ready_eq rt
  have hretry : ready rt p (supply inputs' f) = clearCachedStructs (supply inputs' f) := by
    rw [(hftame.supply hlimits hinputs').ready_eq rt]
    show { (f.pending.foldl (commitValue rt) (clearCachedStructs (supply inputs' f))) with pending := [] } = _
    rw [hpending]
    show { clearCachedStructs (supply inputs' f) with pending := [] } = clearCachedStructs { supply inputs' f with pending := f.pending }
    rw [hpending]
    rfl
  obtain ⟨heffects, houtputs, hhistories, hparams⟩ := commit_frame rt s.pending (clearCachedStructs (supply inputs s))
  obtain ⟨heffects', houtputs', hhistories', hparams'⟩ := commit_frame rt s.pending (clearCachedStructs (supply inputs' s))
  have hstaged : ∀ n, ¬ (∃ x ∈ s.pending, n = x.1.name) → ∀ ins,
      (s.pending.foldl (commitValue rt) (clearCachedStructs (supply ins s))).ctx.cell n = (supply ins s).ctx.cell n :=
    fun n hn ins => (agreeAt_commit s.pending _ fun x hx heq => hn ⟨x, hx, heq⟩).1
  have hinput : ∀ n, n ∈ p.inputs → ¬ ∃ x ∈ s.pending, n = x.1.name := by
    rintro n hn ⟨x, hx, rfl⟩
    exact p.input_free x.1 (htame.pending x hx).1 hn
  have hskip : ∀ ins (r : Session D χ) n, (∀ x ∈ ins, n ≠ x.1) → (supply ins r).ctx.cell n = r.ctx.cell n :=
    fun ins r n hn => cell_foldl_setValue ins r.ctx hn
  obtain ⟨hbuffers, hcells⟩ := commit_congr rt s.pending
    (s := clearCachedStructs (supply inputs' s)) (t := clearCachedStructs (supply inputs s)) rfl
  rw [hready hinputs] at hf hchildren
  rw [hready hinputs', hretry]
  refine ⟨fun n hn => ?_, fun n hn => ?_, ?_, ?_, ?_, ?_, ?_, ?_⟩
  · have hcell := hf.cell n hn
    by_cases hsupplied : ∃ x ∈ inputs', x.1 = n
    · obtain ⟨x, hx, rfl⟩ := hsupplied
      have hfree := hinput x.1 (hinputs' x hx).1
      have hover : Overlaid (types x.1) (s.ctx.cell x.1) (f.ctx.cell x.1) := by
        rw [hcell]
        show Overlaid (types x.1) (s.ctx.cell x.1)
          ((s.pending.foldl (commitValue rt) (clearCachedStructs (supply inputs s))).ctx.cell x.1)
        rw [hstaged x.1 hfree inputs]
        exact overlaid_inputs (fun y hy => (hinputs y hy).2) (Or.inl rfl)
      show (supply inputs' f).ctx.cell x.1 =
        (s.pending.foldl (commitValue rt) (clearCachedStructs (supply inputs' s))).ctx.cell x.1
      rw [hstaged x.1 hfree inputs']
      exact cell_inputs_again (fun y hy => (hinputs' y hy).2) ⟨x, hx, rfl⟩ hover
    · have hnone' : ∀ x ∈ inputs', n ≠ x.1 := fun x hx heq => hsupplied ⟨x, hx, heq.symm⟩
      have hnone : ∀ x ∈ inputs, n ≠ x.1 := by
        intro x hx heq
        obtain ⟨y, hy, hname⟩ := hcover x hx
        exact hnone' y hy (heq.trans hname.symm)
      show (supply inputs' f).ctx.cell n =
        (s.pending.foldl (commitValue rt) (clearCachedStructs (supply inputs' s))).ctx.cell n
      rw [hskip inputs' f n hnone', hcell]
      refine hcells n ?_
      show (supply inputs s).ctx.cell n = (supply inputs' s).ctx.cell n
      rw [hskip inputs s n hnone, hskip inputs' s n hnone']
  · obtain ⟨b, hb, hk, rfl⟩ := hn
    have hfree : ∀ ins, Supplied p types ins → ∀ x ∈ ins, b.name ≠ x.1 :=
      fun ins hins x hx heq => p.input_free b hb (heq ▸ (hins x hx).1)
    have hupdate : ¬ ∃ x ∈ s.pending, b.name = x.1.name := by
      rintro ⟨x, hx, hname⟩
      obtain ⟨hmem, hkx⟩ := htame.pending x hx
      exact update_ne_expr hmem hkx b hb hk hname.symm
    have hover := hf.written b.name ⟨b, hb, hk, rfl⟩
    show Overlaid (types b.name)
      ((s.pending.foldl (commitValue rt) (clearCachedStructs (supply inputs' s))).ctx.cell b.name)
      ((supply inputs' f).ctx.cell b.name)
    rw [hskip inputs' f b.name (hfree inputs' hinputs'), hstaged b.name hupdate inputs',
      hskip inputs' s b.name (hfree inputs' hinputs')]
    have hstart : (s.pending.foldl (commitValue rt) (clearCachedStructs (supply inputs s))).ctx.cell b.name =
        s.ctx.cell b.name := by
      rw [hstaged b.name hupdate inputs, hskip inputs s b.name (hfree inputs hinputs)]
    rw [← hstart]
    exact hover
  · show (inputs'.foldl _ f.ctx).paramStores = _
    rw [paramStores_inputs, hf.params]
    refine hparams.trans ((paramStores_inputs inputs s.ctx).trans ?_)
    exact (hparams'.trans (paramStores_inputs inputs' s.ctx)).symm
  · have hsame : f.effects.children = s.effects.children := by
      refine hchildren.trans ?_
      show (s.pending.foldl (commitValue rt) (clearCachedStructs (supply inputs s))).effects.children = s.effects.children
      rw [heffects]
      rfl
    show (⟨fun _ => none, f.effects.children⟩ : Effects D χ) =
      (s.pending.foldl (commitValue rt) (clearCachedStructs (supply inputs' s))).effects
    rw [heffects', hsame]
    rfl
  · exact hf.outputs.trans (houtputs.trans houtputs'.symm)
  · exact hf.histories.trans (hhistories.trans hhistories'.symm)
  · exact hf.stateBuffers.trans hbuffers
  · exact hpending

omit [Double D] in
theorem Session.Typed.supply (h : s.Typed types) (hinputs : Supplied p types inputs) : (supply inputs s).Typed types :=
  ⟨shows_inputs (fun x hx => (hinputs x hx).2) h.cells, h.pending⟩

theorem shows_ready (h : s.Typed types) (htame : Tame p s) : ∀ n, Shows (types n) ((ready rt p s).ctx.cell n) := by
  rw [htame.ready_eq rt]
  exact shows_commit s.pending h.pending h.cells

theorem params_ready (htame : Tame p s) : (ready rt p s).ctx.paramStores = s.ctx.paramStores := by
  rw [htame.ready_eq rt]
  exact (commit_frame rt s.pending (clearCachedStructs s)).2.2.2

theorem tick_retry {t : Session D χ} (htame : Tame p s) (hlimits : LimitsApart p) (hlocal : Local rt p.bindings dep)
    (hordered : Reorder.Ordered dep p.bindings) (hself : ∀ b ∈ p.bindings, ¬ dep b b)
    (htyped : Typed rt p.bindings types s.ctx.paramStores) (hs : s.Typed types)
    (hinputs : Supplied p types inputs) (hinputs' : Supplied p types inputs')
    (hcover : ∀ x ∈ inputs, ∃ y ∈ inputs', y.1 = x.1) (hfail : FailsEarly rt p (supply inputs s))
    (hretry : tick rt p (supply inputs' (tick rt p (supply inputs s)).2) = (none, t)) :
    ∃ t', tick rt p (supply inputs' s) = (none, t') ∧ Same t' t := by
  obtain ⟨pre, b, post, hbindings, hquiet, hfails⟩ := hfail
  have hsupplied := htame.supply hlimits hinputs
  have hsupplied' := htame.supply hlimits hinputs'
  have hparams : ∀ ins, (supply ins s).ctx.paramStores = s.ctx.paramStores := fun ins => paramStores_inputs ins s.ctx
  have hattempt := hfails.passed post (shows_ready (hs.supply hinputs) hsupplied)
    (by rw [params_ready hsupplied, hparams, ← hbindings]; exact htyped) hquiet
  obtain ⟨err, f, heval, hpassed, hpending, hchildren⟩ := hattempt
  rw [← hbindings] at heval hpassed
  have htick : tick rt p (supply inputs s) = (some err, f) := by
    unfold tick
    rw [heval]
  rw [htick] at hretry
  have hftame : Tame p f := by
    have htame' := hsupplied.tick rt hlimits
    rwa [htick] at htame'
  have hstale := stale_ready htame hlimits hinputs hinputs' hcover hpassed hftame hpending hchildren
  obtain ⟨u, hevalu, hfinish⟩ := evalBindings_of_tick hretry
  obtain ⟨u', hevalu', hsame⟩ := hstale.evalBindings hlocal (List.Subset.refl _) hordered hself
    (by rw [params_ready hsupplied', hparams]; exact htyped) (shows_ready (hs.supply hinputs') hsupplied') hevalu
  obtain ⟨hmap, hstaged⟩ := evalBindings_staged hevalu
  have hnames : (u.pending.map (·.1.name)).Nodup := by
    rw [hstaged]
    exact staged_names hmap
  obtain ⟨t', hfinish', hsame'⟩ := (same_equivalence.symm hsame).finish hnames hfinish
  refine ⟨t', ?_, same_equivalence.symm hsame'⟩
  unfold tick
  rw [hevalu']
  exact hfinish'

end

end Cxpr.Model
