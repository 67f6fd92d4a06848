import Cxpr.Model.Fused
import Cxpr.Model.Retry

/-! What a failed fused tick leaves behind: the staged updates are in the slots of the states and in the context, and the
    code may have stored some expressions. The next tick stores them again before it reads them. -/

namespace Cxpr.Model
variable {D χ β : Type}

/-! ### Cells with one entry -/

section
variable {c : Cell D} {t : ValueType} {v : Value D}

def Plain (c : Cell D) : Prop := ∃ d, c = { var := some d }

def Only (t : ValueType) (c : Cell D) : Prop := c = {} ∨ ∃ v : Value D, v.type = t ∧ c = ({} : Cell D).put v

theorem Only.put (h : Only t c) (hv : v.type = t) : Only t (c.put v) := by
  obtain rfl | ⟨u, hu, rfl⟩ := h
  · exact Or.inr ⟨v, hv, rfl⟩
  · exact Or.inr ⟨v, hv, put_put _ (hu.trans hv.symm)⟩

theorem Only.plain (h : Only t c) (hvar : c.var ≠ none) : t = .number ∧ Plain c := by
  obtain rfl | ⟨u, rfl, rfl⟩ := h
  · exact absurd rfl hvar
  · cases u with
    | number d => exact ⟨rfl, d, rfl⟩
    | bool _ | int64 _ | string _ | array _ | struct _ | null | timestamp _ | duration _ => exact absurd rfl hvar

theorem Only.plain_put (h : Only t c) (hv : v.type = t) (hplain : Plain c) : Plain (c.put v) := by
  obtain ⟨d, rfl⟩ := hplain
  obtain ⟨rfl, -⟩ := h.plain (by simp)
  cases v <;> first | exact ⟨_, rfl⟩ | cases hv

end

section
variable {n m : String}

theorem cell_slotSet (f : Frame D) (n m : String) (d : D) :
    (slotSet f n d).cell m = if m = n then { f.cell m with var := some d } else f.cell m := by
  by_cases hm : m = n
  · subst hm
    simp [slotSet, Frame.cell]
  · simp [slotSet, Frame.cell, hm]

variable [DecidableEq β] {rt : FusedRuntime D χ β} {s t : Running D χ β} {use : SlotUse} {i : Nat} {d : D}

theorem Running.write_spec (rt : FusedRuntime D χ β) (d : D) (h : s.bound use i ≠ none → Plain (s.ctx.cell n)) :
    ∃ ctx bound, s.write rt use i n d = { s with ctx := ctx, bound := bound } ∧
      (∀ m, ctx.cell m = if m = n then { var := some d } else s.ctx.cell m) ∧ ctx.paramStores = s.ctx.paramStores ∧
      ∀ use' j, bound use' j ≠ none → s.bound use' j ≠ none ∨ use' = use ∧ j = i := by
  unfold Running.write
  split
  · rename_i hbound
    obtain ⟨e, he⟩ := h (by rw [hbound]; exact Option.some_ne_none _)
    refine ⟨slotSet s.ctx n d, s.bound, rfl, fun m => ?_, rfl, fun _ _ hb => Or.inl hb⟩
    rw [cell_slotSet]
    split
    · rename_i hm
      subst hm
      rw [he]
    · rfl
  · refine ⟨s.ctx.set n d, _, rfl, fun m => Frame.cell_setValue s.ctx n m (.number d),
      Frame.paramStores_setValue s.ctx n (.number d), fun use' j hb => ?_⟩
    by_cases hij : use' = use ∧ j = i
    · exact Or.inr hij
    · rw [if_neg hij] at hb
      exact Or.inl hb

end

def Layout.nameOf (layout : Layout) : SlotUse → Nat → Option String
  | .commit, i => (layout.commits[i]?).map layout.stateName
  | .input, i => (layout.inputs[i]?).map (·.name)
  | .export_, i => (layout.exports[i]?).map (·.name)

def BoundPlain (layout : Layout) (s : Running D χ β) : Prop :=
  ∀ use i n, layout.nameOf use i = some n → s.bound use i ≠ none → Plain (s.ctx.cell n)

section
variable [DecidableEq β] {rt : FusedRuntime D χ β} {layout : Layout} {s t : Running D χ β} {use : SlotUse} {i : Nat}
  {n : String} {d : D}

theorem BoundPlain.write (rt : FusedRuntime D χ β) (d : D) (h : BoundPlain layout s) (hname : layout.nameOf use i = some n) :
    BoundPlain layout (s.write rt use i n d) ∧
      (∀ m, (s.write rt use i n d).ctx.cell m = if m = n then { var := some d } else s.ctx.cell m) ∧
      (s.write rt use i n d).slots = s.slots ∧ (s.write rt use i n d).staged = s.staged ∧
      ∃ ctx, ctx.paramStores = s.ctx.paramStores ∧ (s.write rt use i n d).toSession = { s.toSession with ctx := ctx } := by
  obtain ⟨ctx, bound, heq, hcell, hparams, hbound⟩ := Running.write_spec rt d (h use i n hname)
  rw [heq]
  refine ⟨fun use' j m hm hb => ?_, hcell, rfl, rfl, ctx, hparams, rfl⟩
  have hplain : Plain (ctx.cell m) := by
    rw [hcell]
    split
    · exact ⟨d, rfl⟩
    · rename_i hne
      rcases hbound use' j hb with hb | ⟨rfl, rfl⟩
      · exact h use' j m hm hb
      · rw [hname] at hm
        exact absurd (Option.some.inj hm).symm hne
  exact hplain

theorem commitFused_spec (rt : FusedRuntime D χ β) (h : BoundPlain layout s) {x : StateCommit × Nat}
    (hx : layout.commits[x.2]? = some x.1) :
    BoundPlain layout (commitFused rt layout true s x) ∧
      (∀ m, (commitFused rt layout true s x).ctx.cell m =
        match s.staged x.2 with
        | some d => if m = layout.stateName x.1 then { var := some d } else s.ctx.cell m
        | none => s.ctx.cell m) ∧
      (commitFused rt layout true s x).slots =
        (match s.staged x.2 with | some d => Function.update s.slots x.1.stateSlot d | none => s.slots) ∧
      (commitFused rt layout true s x).staged = Function.update s.staged x.2 none ∧
      ∃ ctx, ctx.paramStores = s.ctx.paramStores ∧
        (commitFused rt layout true s x).toSession = { s.toSession with ctx := ctx } := by
  unfold commitFused
  cases hstaged : s.staged x.2 with
  | none =>
    exact ⟨h, fun _ => rfl, rfl, (Function.update_eq_self_iff.mpr hstaged.symm).symm, s.ctx, rfl, rfl⟩
  | some d =>
    simp only [if_true]
    have hname : layout.nameOf .commit x.2 = some (layout.stateName x.1) := by
      show (layout.commits[x.2]?).map layout.stateName = _
      rw [hx]
      rfl
    exact BoundPlain.write rt d (s := { s with
      slots := Function.update s.slots x.1.stateSlot d
      staged := Function.update s.staged x.2 none }) h hname

theorem mem_zipIdx {α : Type} {l : List α} {x : α × Nat} (hx : x ∈ l.zipIdx) : l[x.2]? = some x.1 := by
  obtain ⟨a, i⟩ := x
  exact List.mem_zipIdx_iff_getElem?.mp hx

structure SameStage (names : String → Prop) (s t : Running D χ β) : Prop where
  cell : ∀ n, names n → t.ctx.cell n = s.ctx.cell n
  slots : t.slots = s.slots
  staged : t.staged = s.staged

theorem SameStage.commit {names : String → Prop} (rt : FusedRuntime D χ β) (xs : List (StateCommit × Nat)) (hxs : xs ⊆ layout.commits.zipIdx)
    (hs : BoundPlain layout s) (ht : BoundPlain layout t) (h : SameStage names s t) :
    SameStage names (xs.foldl (commitFused rt layout true) s) (xs.foldl (commitFused rt layout true) t) := by
  induction xs generalizing s t with
  | nil => exact h
  | cons x xs ih =>
    have hx := mem_zipIdx (hxs List.mem_cons_self)
    obtain ⟨hplain, hcell, hslots, hstaged, -⟩ := commitFused_spec rt hs hx
    obtain ⟨hplain', hcell', hslots', hstaged', -⟩ := commitFused_spec rt ht hx
    refine ih (fun y hy => hxs (List.mem_cons_of_mem x hy)) hplain hplain' ⟨fun n hn => ?_, ?_, ?_⟩
    · rw [hcell, hcell', h.staged, h.cell n hn]
    · rw [hslots, hslots', h.staged, h.slots]
    · rw [hstaged, hstaged', h.staged]

theorem commits_spec (rt : FusedRuntime D χ β) (xs : List (StateCommit × Nat)) (hxs : xs ⊆ layout.commits.zipIdx)
    (hs : BoundPlain layout s) :
    BoundPlain layout (xs.foldl (commitFused rt layout true) s) ∧
      (∀ n, (∀ x ∈ xs, n ≠ layout.stateName x.1) → (xs.foldl (commitFused rt layout true) s).ctx.cell n = s.ctx.cell n) ∧
      (∀ i, (xs.foldl (commitFused rt layout true) s).staged i = none ∨
        (∀ x ∈ xs, x.2 ≠ i) ∧ (xs.foldl (commitFused rt layout true) s).staged i = s.staged i) ∧
      ∃ ctx, ctx.paramStores = s.ctx.paramStores ∧
        (xs.foldl (commitFused rt layout true) s).toSession = { s.toSession with ctx := ctx } := by
  induction xs generalizing s with
  | nil => exact ⟨hs, fun _ _ => rfl, fun _ => Or.inr ⟨nofun, rfl⟩, s.ctx, rfl, rfl⟩
  | cons x xs ih =>
    obtain ⟨hplain, hcell, -, hstaged, ctx, hparams, hsession⟩ := commitFused_spec rt hs (mem_zipIdx (hxs List.mem_cons_self))
    obtain ⟨hplain', hcells, hstages, ctx', hparams', hsession'⟩ :=
      ih (s := commitFused rt layout true s x) (fun y hy => hxs (List.mem_cons_of_mem x hy)) hplain
    refine ⟨hplain', fun n hn => ?_, fun i => ?_, ctx', ?_, ?_⟩
    · rw [List.foldl_cons, hcells n fun y hy => hn y (List.mem_cons_of_mem x hy), hcell]
      cases s.staged x.2 with
      | none => rfl
      | some d => exact if_neg (hn x List.mem_cons_self)
    · rw [List.foldl_cons]
      rcases hstages i with hi | ⟨hi, heq⟩
      · exact Or.inl hi
      · rw [heq, hstaged]
        by_cases hxi : i = x.2
        · subst hxi
          exact Or.inl (Function.update_self _ _ _)
        · refine Or.inr ⟨fun y hy => ?_, Function.update_of_ne hxi _ _⟩
          rcases List.mem_cons.mp hy with rfl | hy
          · exact Ne.symm hxi
          · exact hi y hy
    · rw [hparams', hsession]
      exact hparams
    · rw [List.foldl_cons, hsession', hsession]

variable [Double D] {types : String → ValueType}

def InputsOnly (types : String → ValueType) (layout : Layout) (s : Running D χ β) : Prop :=
  ∀ r ∈ layout.inputs, Only (types r.name) (s.ctx.cell r.name)

variable {n : String} {x : SlotRef × Nat} {u f : Running D χ β}

omit [Double D] in
theorem historyValue_of_plain {s : Session D χ} (h : Plain (s.ctx.cell n)) :
    ∃ d, (s.ctx.cell n).var = some d ∧ s.historyValue n = some (.number d) := by
  obtain ⟨d, hd⟩ := h
  refine ⟨d, by rw [hd], ?_⟩
  unfold Session.historyValue Session.getTyped
  rw [hd]
  rfl

theorem readInput_spec (rt : FusedRuntime D χ β) (h : BoundPlain layout s) (honly : InputsOnly types layout s) (hx : layout.inputs[x.2]? = some x.1) :
    (s.historyValue x.1.name = none → readInput rt s x = none) ∧
      ∀ v, s.historyValue x.1.name = some v → ∃ bound, BoundPlain layout { s with bound := bound } ∧
        readInput rt s x =
          some { s with slots := Function.update s.slots x.1.slot (scalarInput rt v), bound := bound } := by
  have hname : layout.nameOf .input x.2 = some x.1.name := by
    show (layout.inputs[x.2]?).map (·.name) = _
    rw [hx]
    rfl
  unfold readInput
  split
  · rename_i hbound
    obtain ⟨d, hvar, hvalue⟩ := historyValue_of_plain (h .input x.2 x.1.name hname (by rw [hbound]; exact Option.some_ne_none _))
    refine ⟨fun hnone => ?_, fun v hv => ⟨s.bound, h, ?_⟩⟩
    · rw [hvalue] at hnone
      cases hnone
    · rw [hvalue] at hv
      obtain rfl := Option.some.inj hv
      rw [hvar]
      rfl
  · refine ⟨fun hnone => by rw [hnone], fun v hv => ?_⟩
    rw [hv]
    refine ⟨_, fun use i n hn hb => ?_, rfl⟩
    dsimp only at hb
    split at hb
    · rename_i hij
      obtain ⟨rfl, rfl⟩ := hij
      rw [hname] at hn
      obtain rfl := Option.some.inj hn
      split at hb
      · rename_i hvar
        exact ((honly x.1 (List.mem_of_getElem? hx)).plain (Option.isSome_iff_ne_none.mp hvar)).2
      · exact absurd rfl hb
    · exact h use i n hn hb

theorem readInputs_spec (rt : FusedRuntime D χ β) (xs : List (SlotRef × Nat)) (hxs : xs ⊆ layout.inputs.zipIdx)
    (h : BoundPlain layout s) (honly : InputsOnly types layout s) :
    BoundPlain layout (readInputs rt xs s).2 ∧ (readInputs rt xs s).2.toSession = s.toSession ∧
      (readInputs rt xs s).2.staged = s.staged ∧
      ∀ k, (∀ r ∈ layout.inputs, r.slot ≠ k) → (readInputs rt xs s).2.slots k = s.slots k := by
  induction xs generalizing s with
  | nil => exact ⟨h, rfl, rfl, fun _ _ => rfl⟩
  | cons x xs ih =>
    have hx := mem_zipIdx (hxs List.mem_cons_self)
    obtain ⟨hnone, hsome⟩ := readInput_spec rt h honly hx
    unfold readInputs
    cases hvalue : s.historyValue x.1.name with
    | none =>
      rw [hnone hvalue]
      exact ⟨h, rfl, rfl, fun _ _ => rfl⟩
    | some v =>
      obtain ⟨bound, hbound, hread⟩ := hsome v hvalue
      rw [hread]
      obtain ⟨hplain, hsession, hstaged, hslots⟩ :=
        ih (s := { s with slots := Function.update s.slots x.1.slot (scalarInput rt v), bound := bound })
          (fun y hy => hxs (List.mem_cons_of_mem x hy)) hbound honly
      refine ⟨hplain, hsession, hstaged, fun k hk => (hslots k hk).trans ?_⟩
      exact Function.update_of_ne (Ne.symm (hk x.1 (List.mem_of_getElem? hx))) _ _

structure Near (slots : Nat → Prop) (s t : Running D χ β) : Prop where
  same : Same s.toSession t.toSession
  slots : ∀ k, slots k → t.slots k = s.slots k
  staged : t.staged = s.staged

theorem Near.readInputs {slots : Nat → Prop} {t' : Running D χ β} (xs : List (SlotRef × Nat))
    (hxs : xs ⊆ layout.inputs.zipIdx) (hs : BoundPlain layout s) (ht : BoundPlain layout t)
    (honly : InputsOnly types layout s) (h : Near slots s t) (hread : readInputs rt xs t = (none, t')) :
    ∃ s', Model.readInputs rt xs s = (none, s') ∧ Near (fun k => slots k ∨ ∃ x ∈ xs, x.1.slot = k) s' t' := by
  induction xs generalizing s t slots with
  | nil =>
    cases hread
    exact ⟨s, rfl, h.same, fun k hk => h.slots k (hk.resolve_right (by rintro ⟨x, hx, -⟩; cases hx)), h.staged⟩
  | cons x xs ih =>
    have hx := mem_zipIdx (hxs List.mem_cons_self)
    have honly' : InputsOnly types layout t := fun r hr => by rw [h.same.ctx.cell]; exact honly r hr
    obtain ⟨-, hsome⟩ := readInput_spec rt hs honly hx
    obtain ⟨hnone', hsome'⟩ := readInput_spec rt ht honly' hx
    unfold Model.readInputs at hread ⊢
    rw [h.same.historyValue] at hnone' hsome'
    cases hvalue : s.historyValue x.1.name with
    | none =>
      rw [hnone' hvalue] at hread
      cases hread
    | some v =>
      obtain ⟨bound, hbound, heq⟩ := hsome v hvalue
      obtain ⟨bound', hbound', heq'⟩ := hsome' v hvalue
      rw [heq'] at hread
      rw [heq]
      have hstep : Near (fun k => slots k ∨ x.1.slot = k)
          { s with slots := Function.update s.slots x.1.slot (scalarInput rt v), bound := bound }
          { t with slots := Function.update t.slots x.1.slot (scalarInput rt v), bound := bound' } := by
        refine ⟨h.same, fun k hk => ?_, h.staged⟩
        by_cases hkx : k = x.1.slot
        · subst hkx
          show Function.update t.slots _ _ _ = Function.update s.slots _ _ _
          rw [Function.update_self, Function.update_self]
        · show Function.update t.slots _ _ _ = Function.update s.slots _ _ _
          rw [Function.update_of_ne hkx, Function.update_of_ne hkx]
          exact h.slots k (hk.resolve_right (Ne.symm hkx))
      obtain ⟨s', hs', hnear⟩ :=
        ih (s := { s with slots := Function.update s.slots x.1.slot (scalarInput rt v), bound := bound })
          (t := { t with slots := Function.update t.slots x.1.slot (scalarInput rt v), bound := bound' })
          (fun y hy => hxs (List.mem_cons_of_mem x hy)) hbound hbound' honly hstep hread
      refine ⟨s', hs', hnear.same, fun k hk => hnear.slots k ?_, hnear.staged⟩
      rcases hk with hk | ⟨y, hy, hyk⟩
      · exact Or.inl (Or.inl hk)
      · rcases List.mem_cons.mp hy with rfl | hy
        · exact Or.inl (Or.inr hyk)
        · exact Or.inr ⟨y, hy, hyk⟩

theorem Near.export (hs : s.bound .export_ x.2 ≠ none → Plain (s.ctx.cell x.1.name))
    (ht : t.bound .export_ x.2 ≠ none → Plain (t.ctx.cell x.1.name)) (h : Near (fun _ => True) s t) :
    Near (fun _ => True) (exportFused rt s x) (exportFused rt t x) := by
  have hslot := h.slots x.1.slot trivial
  unfold exportFused
  rw [hslot]
  split
  · exact ⟨h.same.setValue x.1.name (.bool _), h.slots, h.staged⟩
  · obtain ⟨ctx, bound, heq, hcell, hparams, -⟩ := Running.write_spec rt (s.slots x.1.slot) hs
    obtain ⟨ctx', bound', heq', hcell', hparams', -⟩ := Running.write_spec rt (s.slots x.1.slot) ht
    rw [heq, heq']
    refine ⟨{ h.same with ctx := ⟨fun n => ?_, ?_⟩ }, h.slots, h.staged⟩
    · show ctx'.cell n = ctx.cell n
      rw [hcell, hcell', h.same.ctx.cell]
    · exact hparams'.trans (h.same.ctx.params.trans hparams.symm)

theorem exportFused_keeps {y : SlotRef × Nat} (hs : s.bound .export_ x.2 ≠ none → Plain (s.ctx.cell x.1.name))
    (hname : y.1.name ≠ x.1.name) (hindex : y.2 ≠ x.2)
    (hy : s.bound .export_ y.2 ≠ none → Plain (s.ctx.cell y.1.name)) :
    (exportFused rt s x).bound .export_ y.2 ≠ none → Plain ((exportFused rt s x).ctx.cell y.1.name) := by
  unfold exportFused
  split
  · intro hb
    have hcell := Frame.cell_setValue_of_ne s.ctx (.bool (Double.ne (s.slots x.1.slot) Double.zero)) hname
    exact hcell ▸ hy hb
  · obtain ⟨ctx, bound, heq, hcell, -, hbound⟩ := Running.write_spec rt (s.slots x.1.slot) hs
    rw [heq]
    intro hb
    show Plain (ctx.cell y.1.name)
    rw [hcell, if_neg hname]
    rcases hbound .export_ y.2 hb with hb | ⟨-, hij⟩
    · exact hy hb
    · exact absurd hij hindex

theorem Near.exports (rt : FusedRuntime D χ β) (xs : List (SlotRef × Nat)) (hxs : xs.Pairwise fun x y => y.1.name ≠ x.1.name ∧ y.2 ≠ x.2)
    (hs : ∀ x ∈ xs, s.bound .export_ x.2 ≠ none → Plain (s.ctx.cell x.1.name))
    (ht : ∀ x ∈ xs, t.bound .export_ x.2 ≠ none → Plain (t.ctx.cell x.1.name)) (h : Near (fun _ => True) s t) :
    Near (fun _ => True) (xs.foldl (exportFused rt) s) (xs.foldl (exportFused rt) t) := by
  induction xs generalizing s t with
  | nil => exact h
  | cons x xs ih =>
    obtain ⟨hhead, htail⟩ := List.pairwise_cons.mp hxs
    have hx := hs x List.mem_cons_self
    have hx' := ht x List.mem_cons_self
    refine ih htail (fun y hy => ?_) (fun y hy => ?_) (Near.export hx hx' h)
    · exact exportFused_keeps hx (hhead y hy).1 (hhead y hy).2 (hs y (List.mem_cons_of_mem x hy))
    · exact exportFused_keeps hx' (hhead y hy).1 (hhead y hy).2 (ht y (List.mem_cons_of_mem x hy))

theorem pairwise_zipIdx {l : List SlotRef} (h : (l.map (·.name)).Nodup) :
    l.zipIdx.Pairwise fun x y => y.1.name ≠ x.1.name ∧ y.2 ≠ x.2 := by
  have hindices : (l.zipIdx.map (·.2)).Nodup := by
    rw [List.zipIdx_map_snd]
    exact List.nodup_range'
  have hnames : (l.zipIdx.map (·.1.name)).Nodup := by
    have hfst := congrArg (List.map SlotRef.name) (List.zipIdx_map_fst 0 l)
    rw [List.map_map] at hfst
    exact hfst ▸ h
  exact (List.pairwise_map.mp hnames).imp₂ (fun _ _ hn hi => ⟨Ne.symm hn, Ne.symm hi⟩) (List.pairwise_map.mp hindices)

omit [DecidableEq β] in
theorem Near.refreshOutputs (layout : Layout) (p : Program D) (h : Near (fun _ => True) s t) (hpending : s.pending = []) :
    Near (fun _ => True) (refreshOutputsFused p layout s) (refreshOutputsFused p layout t) := by
  have hslots : t.slots = s.slots := funext fun k => h.slots k trivial
  have houtput : fusedOutput layout t = fusedOutput layout s := by
    unfold fusedOutput fusedValue
    rw [hslots, h.staged]
  unfold refreshOutputsFused
  rw [h.same.outputs, houtput]
  split
  · exact ⟨{ h.same with outputs := rfl }, h.slots, h.staged⟩
  · exact ⟨h.same.refreshOutputs (by rw [hpending]; exact List.nodup_nil) p, h.slots, h.staged⟩

theorem Near.finish {p : Program D} (hexports : (layout.exports.map (·.name)).Nodup)
    (hs : BoundPlain layout s) (ht : BoundPlain layout t) (hpending : s.pending = []) (h : Near (fun _ => True) s t)
    (hfinish : finishFused rt p layout true t = (none, u)) :
    ∃ u', finishFused rt p layout true s = (none, u') ∧ Near (fun _ => True) u' u := by
  have hslots : t.slots = s.slots := funext fun k => h.slots k trivial
  have hstage : Near (fun _ => True) (stageFused layout s) (stageFused layout t) := by
    refine ⟨h.same, h.slots, ?_⟩
    unfold stageFused
    rw [hslots, h.staged]
  have hplain : ∀ r : Running D χ β, BoundPlain layout r → ∀ x ∈ layout.exports.zipIdx,
      (stageFused layout r).bound .export_ x.2 ≠ none → Plain ((stageFused layout r).ctx.cell x.1.name) := by
    intro r hr x hx hb
    refine hr .export_ x.2 x.1.name ?_ hb
    show (layout.exports[x.2]?).map (·.name) = _
    rw [mem_zipIdx hx]
    rfl
  have hexported := Near.exports rt layout.exports.zipIdx (pairwise_zipIdx hexports) (hplain s hs) (hplain t ht) hstage
  have hkeeps : ∀ (xs : List (SlotRef × Nat)) (r : Running D χ β), (xs.foldl (exportFused rt) r).pending = r.pending := by
    intro xs
    induction xs with
    | nil => exact fun _ => rfl
    | cons x xs ih =>
      intro r
      rw [List.foldl_cons, ih]
      unfold exportFused Running.write
      split
      · rfl
      · split <;> rfl
  have hrefreshed := hexported.refreshOutputs layout p (by rw [hkeeps]; exact hpending)
  obtain ⟨hresult, hsame⟩ := hrefreshed.same.captureHistory rt.toRuntime p.historySpecs
  unfold finishFused at hfinish ⊢
  simp only [if_true] at hfinish ⊢
  rcases hcapture : captureHistory rt.toRuntime p.historySpecs
    (refreshOutputsFused p layout (layout.exports.zipIdx.foldl (exportFused rt) (stageFused layout t))).toSession with ⟨result, t'⟩
  rcases hcapture' : captureHistory rt.toRuntime p.historySpecs
    (refreshOutputsFused p layout (layout.exports.zipIdx.foldl (exportFused rt) (stageFused layout s))).toSession with ⟨result', s'⟩
  rw [hcapture, hcapture'] at hresult hsame
  rw [hcapture] at hfinish
  cases result with
  | some err => cases hfinish
  | none =>
    cases hfinish
    obtain rfl : result' = none := hresult.symm
    exact ⟨_, rfl, hsame, hrefreshed.slots, hrefreshed.staged⟩

/-! ### The fused tick after a failed one -/

/-- The code leaves the given slots alone, and stores every other one before it reads it. -/
structure Sealed (rt : FusedRuntime D χ β) (fixed : Nat → Prop) : Prop where
  failed : ∀ view slots err slots', rt.execScalarFast view slots = (some err, slots') → ∀ k, fixed k → slots' k = slots k
  stored : ∀ view slots slots' result, (∀ k, fixed k → slots' k = slots k) →
    rt.execScalarFast view slots' = (none, result) → rt.execScalarFast view slots = (none, result)

def Running.supply (inputs : List (String × Value D)) (s : Running D χ β) : Running D χ β :=
  { s with toSession := Model.supply inputs s.toSession }

variable {c : Compiled D} {fixed : Nat → Prop} {inputs inputs' : List (String × Value D)}

def commitsOf (rt : FusedRuntime D χ β) (layout : Layout) (s : Running D χ β) : Running D χ β :=
  layout.commits.zipIdx.foldl (commitFused rt layout true) s

omit [Double D] in
theorem stateName_ne_input (hlayout : c.fused = some layout) (hn : n ∈ c.inputs) :
    ∀ x ∈ layout.commits.zipIdx, n ≠ layout.stateName x.1 := by
  intro x hx heq
  obtain ⟨b, hb, -, hname⟩ := c.fused_commits layout hlayout x.1 (List.mem_of_getElem? (mem_zipIdx hx))
  exact c.input_free b hb (hname.trans heq.symm ▸ hn)

omit [Double D] in
theorem mem_inputs (hlayout : c.fused = some layout) : n ∈ c.inputs ↔ ∃ r ∈ layout.inputs, r.name = n := by
  rw [← c.fused_inputs layout hlayout, List.mem_map]

omit [Double D] in
theorem InputsOnly.commits (rt : FusedRuntime D χ β) (hlayout : c.fused = some layout) (hs : BoundPlain layout s)
    (h : InputsOnly types layout s) : InputsOnly types layout (commitsOf rt layout s) := by
  intro r hr
  obtain ⟨-, hcells, -⟩ := commits_spec rt layout.commits.zipIdx (List.Subset.refl _) hs
  have hcell := hcells r.name (stateName_ne_input hlayout ((mem_inputs hlayout).mpr ⟨r, hr, rfl⟩))
  unfold commitsOf
  rw [hcell]
  exact h r hr

theorem runFused_eq (s : Running D χ β) : runFused rt layout true s =
    proceed (readInputs rt layout.inputs.zipIdx (commitsOf rt layout s)) fun s =>
      ((rt.execScalarFast s.view s.slots).1, { s with slots := (rt.execScalarFast s.view s.slots).2 }) := by
  unfold runFused commitsOf
  rcases readInputs rt layout.inputs.zipIdx (layout.commits.zipIdx.foldl (commitFused rt layout true) s) with ⟨_ | err, t⟩ <;> rfl

theorem runFused_cases {result : Option Error} (h : runFused rt layout true s = (result, t)) :
    (∃ err, result = some err ∧ readInputs rt layout.inputs.zipIdx (commitsOf rt layout s) = (some err, t)) ∨
    ∃ u slots, readInputs rt layout.inputs.zipIdx (commitsOf rt layout s) = (none, u) ∧
      rt.execScalarFast u.view u.slots = (result, slots) ∧ t = { u with slots := slots } := by
  rw [runFused_eq] at h
  rcases hread : readInputs rt layout.inputs.zipIdx (commitsOf rt layout s) with ⟨result', u⟩
  rw [hread] at h
  cases result' with
  | some err =>
    rw [proceed_some] at h
    cases h
    exact Or.inl ⟨err, rfl, rfl⟩
  | none =>
    rw [proceed_none] at h
    refine Or.inr ⟨u, (rt.execScalarFast u.view u.slots).2, rfl, ?_, (congrArg Prod.snd h).symm⟩
    rw [← show (rt.execScalarFast u.view u.slots).1 = result from congrArg Prod.fst h]

theorem runFused_of_exec {result : Option Error} {slots : Nat → D}
    (hread : readInputs rt layout.inputs.zipIdx (commitsOf rt layout s) = (none, u))
    (hexec : rt.execScalarFast u.view u.slots = (result, slots)) :
    runFused rt layout true s = (result, { u with slots := slots }) := by
  rw [runFused_eq, hread, proceed_none, hexec]

theorem runFused_failed {err : Error} (hsealed : Sealed rt fixed) (hlayout : c.fused = some layout)
    (hs : BoundPlain layout s) (honly : InputsOnly types layout s) (h : runFused rt layout true s = (some err, f)) :
    BoundPlain layout f ∧ f.toSession = (commitsOf rt layout s).toSession ∧ f.staged = (commitsOf rt layout s).staged ∧
      ∀ k, fixed k → (∀ r ∈ layout.inputs, r.slot ≠ k) → f.slots k = (commitsOf rt layout s).slots k := by
  obtain ⟨hplain, -⟩ := commits_spec rt layout.commits.zipIdx (List.Subset.refl _) hs
  obtain ⟨hplain', hsession, hstaged, hslots⟩ := readInputs_spec rt layout.inputs.zipIdx (List.Subset.refl _) hplain
    (honly.commits rt hlayout hs)
  obtain ⟨e, -, hread⟩ | ⟨u, slots, hread, hexec, rfl⟩ := runFused_cases h
  · have hread' : (readInputs rt layout.inputs.zipIdx (layout.commits.zipIdx.foldl (commitFused rt layout true) s)).2 = f :=
      congrArg Prod.snd hread
    rw [hread'] at hplain' hsession hstaged hslots
    exact ⟨hplain', hsession, hstaged, fun k _ hk => hslots k hk⟩
  · have hread' : (readInputs rt layout.inputs.zipIdx (layout.commits.zipIdx.foldl (commitFused rt layout true) s)).2 = u :=
      congrArg Prod.snd hread
    rw [hread'] at hplain' hsession hstaged hslots
    refine ⟨hplain', hsession, hstaged, fun k hfixed hk => ?_⟩
    exact (hsealed.failed _ _ _ _ hexec k hfixed).trans (hslots k hk)

omit [DecidableEq β] [Double D] in
theorem plain_inputs {f : Frame D} (htypes : ∀ x ∈ inputs, x.2.type = types x.1)
    (h : Only (types n) (f.cell n)) :
    Only (types n) ((inputs.foldl (fun f x => f.setValue x.1 x.2) f).cell n) ∧
      (Plain (f.cell n) → Plain ((inputs.foldl (fun f x => f.setValue x.1 x.2) f).cell n)) := by
  induction inputs generalizing f with
  | nil => exact ⟨h, id⟩
  | cons x inputs ih =>
    have hx := htypes x List.mem_cons_self
    have hrest : ∀ y ∈ inputs, y.2.type = types y.1 := fun y hy => htypes y (List.mem_cons_of_mem x hy)
    by_cases hn : n = x.1
    · subst hn
      have hcell := Frame.cell_setValue_self f x.1 x.2
      obtain ⟨honly, hplain⟩ := ih (f := f.setValue x.1 x.2) hrest (hcell ▸ h.put hx)
      exact ⟨honly, fun hf => hplain (hcell ▸ h.plain_put hx hf)⟩
    · have hcell := Frame.cell_setValue_of_ne f x.2 hn
      obtain ⟨honly, hplain⟩ := ih (f := f.setValue x.1 x.2) hrest (hcell ▸ h)
      exact ⟨honly, fun hf => hplain (hcell ▸ hf)⟩

omit [DecidableEq β] [Double D] in
theorem BoundPlain.supply (hlayout : c.fused = some layout) (h : BoundPlain layout s) (honly : InputsOnly types layout s)
    (hinputs : Supplied c.toProgram types inputs) :
    BoundPlain layout (s.supply inputs) ∧ InputsOnly types layout (s.supply inputs) := by
  have htypes : ∀ x ∈ inputs, x.2.type = types x.1 := fun x hx => (hinputs x hx).2
  refine ⟨fun use i n hn hb => ?_, fun r hr => (plain_inputs htypes (honly r hr)).1⟩
  have hplain := h use i n hn hb
  by_cases hinput : n ∈ c.inputs
  · obtain ⟨r, hr, rfl⟩ := (mem_inputs hlayout).mp hinput
    exact (plain_inputs htypes (honly r hr)).2 hplain
  · have hcell : (s.supply inputs).ctx.cell n = s.ctx.cell n :=
      cell_foldl_setValue inputs s.ctx fun x hx heq => hinput (heq ▸ (hinputs x hx).1)
    rw [hcell]
    exact hplain

omit [Double D] in
theorem near_commits (hlayout : c.fused = some layout) (hs : BoundPlain layout s)
    (honly : InputsOnly types layout s) (hinputs : Supplied c.toProgram types inputs)
    (hinputs' : Supplied c.toProgram types inputs') (hcover : ∀ x ∈ inputs, ∃ y ∈ inputs', y.1 = x.1)
    (hsession : f.toSession = (commitsOf rt layout (s.supply inputs)).toSession)
    (hstaged : f.staged = (commitsOf rt layout (s.supply inputs)).staged)
    (hslots : ∀ k, fixed k → (∀ r ∈ layout.inputs, r.slot ≠ k) →
      f.slots k = (commitsOf rt layout (s.supply inputs)).slots k) :
    Near (fun k => fixed k ∧ ∀ r ∈ layout.inputs, r.slot ≠ k) (commitsOf rt layout (s.supply inputs')) (f.supply inputs') := by
  obtain ⟨hplain, -⟩ := hs.supply hlayout honly hinputs
  obtain ⟨hplain', -⟩ := hs.supply hlayout honly hinputs'
  obtain ⟨-, hcells, -, ctx, hparams, hframe⟩ := commits_spec rt layout.commits.zipIdx (List.Subset.refl _) hplain
  obtain ⟨-, hcells', -, ctx', hparams', hframe'⟩ := commits_spec rt layout.commits.zipIdx (List.Subset.refl _) hplain'
  have hstage : SameStage (fun n => ∀ x ∈ inputs', n ≠ x.1) (s.supply inputs') (s.supply inputs) := by
    refine ⟨fun n hn => ?_, rfl, rfl⟩
    have hn' : ∀ x ∈ inputs, n ≠ x.1 := by
      intro x hx heq
      obtain ⟨y, hy, hname⟩ := hcover x hx
      exact hn y hy (heq.trans hname.symm)
    exact (cell_foldl_setValue inputs s.ctx hn').trans (cell_foldl_setValue inputs' s.ctx hn).symm
  have hcommits := hstage.commit rt layout.commits.zipIdx (List.Subset.refl _) hplain' hplain
  -- the attempt and the direct tick have changed nothing but the context so far
  have hfailed : f.toSession = { s.toSession with ctx := ctx } := hsession.trans hframe
  have hdirect : (commitsOf rt layout (s.supply inputs')).toSession = { s.toSession with ctx := ctx' } := hframe'
  refine ⟨⟨⟨fun n => ?_, ?_⟩, ?_, ?_, ?_, ?_, ?_⟩, fun k hk => ?_, ?_⟩
  · have hf : f.ctx.cell n = (commitsOf rt layout (s.supply inputs)).ctx.cell n := by rw [hsession]
    by_cases hn : ∃ x ∈ inputs', x.1 = n
    · obtain ⟨x, hx, rfl⟩ := hn
      have hstate := stateName_ne_input hlayout (hinputs' x hx).1
      have hover : Overlaid (types x.1) (s.ctx.cell x.1) (f.ctx.cell x.1) := by
        rw [hf]
        unfold commitsOf
        rw [hcells x.1 hstate]
        exact overlaid_inputs (fun y hy => (hinputs y hy).2) (Or.inl rfl)
      have hretry : (f.supply inputs').ctx.cell x.1 = (s.supply inputs').ctx.cell x.1 :=
        cell_inputs_again (fun y hy => (hinputs' y hy).2) ⟨x, hx, rfl⟩ hover
      exact hretry.trans (hcells' x.1 hstate).symm
    · have hnone : ∀ x ∈ inputs', n ≠ x.1 := fun x hx heq => hn ⟨x, hx, heq.symm⟩
      have hskip : (f.supply inputs').ctx.cell n = f.ctx.cell n := cell_foldl_setValue inputs' f.ctx hnone
      rw [hskip, hf]
      exact hcommits.cell n hnone
  · have hretry : (f.supply inputs').ctx.paramStores = f.ctx.paramStores := paramStores_inputs inputs' f.ctx
    rw [hretry, hfailed, hdirect]
    show ctx.paramStores = ctx'.paramStores
    rw [hparams, hparams']
    exact (paramStores_inputs inputs s.ctx).trans (paramStores_inputs inputs' s.ctx).symm
  · exact (congrArg Session.effects hfailed).trans (congrArg Session.effects hdirect).symm
  · exact (congrArg Session.outputs hfailed).trans (congrArg Session.outputs hdirect).symm
  · exact (congrArg Session.histories hfailed).trans (congrArg Session.histories hdirect).symm
  · exact (congrArg Session.stateBuffers hfailed).trans (congrArg Session.stateBuffers hdirect).symm
  · exact List.Perm.of_eq ((congrArg Session.pending hdirect).trans (congrArg Session.pending hfailed).symm)
  · exact (hslots k hk.1 hk.2).trans (congrFun hcommits.slots k)
  · exact hstaged.trans hcommits.staged

omit [Double D] in
theorem commitsOf_idle (h : ∀ x ∈ layout.commits.zipIdx, s.staged x.2 = none) : commitsOf rt layout s = s := by
  unfold commitsOf
  generalize layout.commits.zipIdx = xs at h
  induction xs with
  | nil => rfl
  | cons x xs ih =>
    have hx : commitFused rt layout true s x = s := by
      unfold commitFused
      rw [h x List.mem_cons_self]
    rw [List.foldl_cons, hx]
    exact ih fun y hy => h y (List.mem_cons_of_mem x hy)

def Running.start (s : Running D χ β) : Running D χ β := { s with toSession := clearCachedStructs s.toSession }

theorem tick_fused (hlayout : c.fused = some layout) (htame : Tame c.toProgram s.toSession) :
    c.tick rt s = tickFused rt c.toProgram layout true s.start := by
  unfold Compiled.tick Running.start clampConstants
  rw [hlayout, clampConstants_eq_self c.constants htame.limits]

omit [Double D] in
theorem Tame.commits (rt : FusedRuntime D χ β) (hlayout : c.fused = some layout) (hlimits : LimitsApart c.toProgram)
    (hs : BoundPlain layout s) (h : Tame c.toProgram s.toSession) :
    Tame c.toProgram (commitsOf rt layout s).toSession := by
  obtain ⟨-, hcells, -, ctx, -, hframe⟩ := commits_spec rt layout.commits.zipIdx (List.Subset.refl _) hs
  refine ⟨?_, fun k hk hlimited => ?_⟩
  · unfold commitsOf
    rw [hframe]
    exact h.pending
  · have hcell : (commitsOf rt layout s).ctx.cell k.name = s.ctx.cell k.name := by
      refine hcells k.name fun x hx heq => ?_
      obtain ⟨b, hb, -, hname⟩ := c.fused_commits layout hlayout x.1 (List.mem_of_getElem? (mem_zipIdx hx))
      exact (hlimits k hk hlimited).2.1 b hb (hname.trans heq.symm)
    rw [hcell]
    exact h.limits k hk hlimited

theorem Near.run (hsealed : Sealed rt fixed) (hs : BoundPlain layout (commitsOf rt layout s))
    (ht : BoundPlain layout (commitsOf rt layout t)) (honly : InputsOnly types layout (commitsOf rt layout s))
    (h : Near (fun k => fixed k ∧ ∀ r ∈ layout.inputs, r.slot ≠ k) (commitsOf rt layout s) (commitsOf rt layout t))
    (hrun : runFused rt layout true t = (none, u)) :
    ∃ u', runFused rt layout true s = (none, u') ∧ Near (fun _ => True) u' u ∧ BoundPlain layout u' ∧
      BoundPlain layout u ∧ u'.toSession = (commitsOf rt layout s).toSession := by
  have honly' : InputsOnly types layout (commitsOf rt layout t) := fun r hr => by
    rw [h.same.ctx.cell]
    exact honly r hr
  have hall := List.Subset.refl layout.inputs.zipIdx
  obtain ⟨e, hnone, -⟩ | ⟨v, slots, hread, hexec, rfl⟩ := runFused_cases hrun
  · cases hnone
  obtain ⟨v', hread', hv⟩ := h.readInputs layout.inputs.zipIdx hall hs ht honly hread
  have hagree : ∀ k, fixed k → v.slots k = v'.slots k := by
    intro k hk
    refine hv.slots k ?_
    by_cases hinput : ∀ r ∈ layout.inputs, r.slot ≠ k
    · exact Or.inl ⟨hk, hinput⟩
    · obtain ⟨r, hr, hslot⟩ : ∃ r ∈ layout.inputs, r.slot = k := by simpa using hinput
      obtain ⟨i, hi⟩ := List.mem_iff_getElem?.mp hr
      exact Or.inr ⟨(r, i), List.mem_zipIdx_iff_getElem?.mpr hi, hslot⟩
  have hexec' : rt.execScalarFast v'.view v'.slots = (none, slots) := by
    refine hsealed.stored _ _ _ _ hagree ?_
    rw [← hexec, hv.same.view]
  obtain ⟨hplain, -⟩ := readInputs_spec rt layout.inputs.zipIdx hall ht honly'
  obtain ⟨hplain', hsession', -⟩ := readInputs_spec rt layout.inputs.zipIdx hall hs honly
  rw [hread] at hplain
  rw [hread'] at hplain' hsession'
  exact ⟨_, runFused_of_exec hread' hexec', ⟨hv.same, fun _ _ => rfl, hv.staged⟩, hplain', hplain, hsession'⟩

theorem tickFused_retry {err : Error} {t : Running D χ β} (hlayout : c.fused = some layout)
    (hlimits : LimitsApart c.toProgram) (htame : Tame c.toProgram s.toSession) (hpending : s.pending = [])
    (hs : BoundPlain layout s) (honly : InputsOnly types layout s) (hsealed : Sealed rt fixed)
    (hinputs : Supplied c.toProgram types inputs) (hinputs' : Supplied c.toProgram types inputs')
    (hcover : ∀ x ∈ inputs, ∃ y ∈ inputs', y.1 = x.1)
    (hfail : runFused rt layout true (s.start.supply inputs) = (some err, f))
    (hretry : c.tick rt (f.supply inputs') = (none, t)) :
    ∃ t', c.tick rt (s.supply inputs') = (none, t') ∧ Near (fun _ => True) t' t := by
  have hall := List.Subset.refl layout.commits.zipIdx
  have hstarted : Tame c.toProgram s.start.toSession := ⟨htame.pending, htame.limits⟩
  obtain ⟨hplain, honly₁⟩ := BoundPlain.supply (s := s.start) hlayout hs honly hinputs
  obtain ⟨hplain', honly₁'⟩ := BoundPlain.supply (s := s.start) hlayout hs honly hinputs'
  obtain ⟨hfplain, hsession, hstaged, hslots⟩ := runFused_failed hsealed hlayout hplain honly₁ hfail
  obtain ⟨-, -, hstages, ctx, -, hframe⟩ := commits_spec rt layout.commits.zipIdx hall hplain
  have hftame : Tame c.toProgram f.toSession := by
    rw [hsession]
    exact Tame.commits rt hlayout hlimits hplain (hstarted.supply hlimits hinputs)
  have hfonly : InputsOnly types layout f := by
    intro r hr
    rw [hsession]
    exact honly₁.commits rt hlayout hplain r hr
  obtain ⟨hfplain', -⟩ := hfplain.supply hlayout hfonly hinputs'
  -- nothing is cached or staged any more, so that the retried tick commits nothing
  have hstart : f.start = f := by
    have hf : f.toSession = { (s.start.supply inputs).toSession with ctx := ctx } := hsession.trans hframe
    have hclear : clearCachedStructs f.toSession = f.toSession := by
      rw [hf]
      rfl
    unfold Running.start
    rw [hclear]
  have hidle : commitsOf rt layout (f.supply inputs') = f.supply inputs' := by
    refine commitsOf_idle fun x hx => ?_
    show f.staged x.2 = none
    rw [hstaged]
    rcases hstages x.2 with hnone | ⟨hne, -⟩
    · exact hnone
    · exact absurd rfl (hne x hx)
  have hnear := near_commits (s := s.start) hlayout hs honly hinputs hinputs' hcover hsession hstaged hslots
  rw [← hidle] at hnear hfplain'
  obtain ⟨hdplain, -, -, ctx', -, hframe'⟩ := commits_spec rt layout.commits.zipIdx hall hplain'
  have hdonly := honly₁'.commits rt hlayout hplain'
  rw [tick_fused hlayout (hftame.supply hlimits hinputs')] at hretry
  rw [tick_fused hlayout (htame.supply hlimits hinputs')]
  have hrestart : (f.supply inputs').start = f.supply inputs' := congrArg (Running.supply inputs') hstart
  rw [hrestart] at hretry
  unfold tickFused at hretry
  rcases hrun : runFused rt layout true (f.supply inputs') with ⟨result, u⟩
  rw [hrun] at hretry
  cases result with
  | some e => cases hretry
  | none =>
    obtain ⟨u', hrun', hu, huplain', huplain, husession⟩ := hnear.run hsealed hdplain hfplain' hdonly hrun
    have hpending' : u'.pending = [] := by
      have hsession' := husession.trans hframe'
      rw [hsession']
      exact hpending
    obtain ⟨t', hfinish, ht⟩ := hu.finish (c.fused_exports layout hlayout).1 huplain' huplain hpending' hretry
    refine ⟨t', ?_, ht⟩
    have hdirect : runFused rt layout true (s.supply inputs').start = (none, u') := hrun'
    unfold tickFused
    rw [hdirect]
    exact hfinish

end

end Cxpr.Model
