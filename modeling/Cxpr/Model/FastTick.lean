import Cxpr.Model.Failure

/-! Fast ticks. A fused tick is a step of a machine that has slots, staged updates and outputs, and no context: whether
    the context is brought up to date makes no difference to it. The parameter limits, which only the ordinary tick
    enforces, and variables that change their type between ticks are what can tell the two apart. -/

namespace Cxpr.Model
variable {D χ β : Type}

structure SlotMachine (D : Type) where
  slots : Nat → D
  staged : Nat → Option D
  outputs : List (OutputState D)

def Running.machine (s : Running D χ β) : SlotMachine D := ⟨s.slots, s.staged, s.outputs⟩

namespace SlotMachine

def commit (m : SlotMachine D) (x : StateCommit × Nat) : SlotMachine D :=
  match m.staged x.2 with
  | none => m
  | some value =>
    { m with
      slots := Function.update m.slots x.1.stateSlot value
      staged := Function.update m.staged x.2 none }

def load (input : String → Option D) : List (SlotRef × Nat) → SlotMachine D → Option Error × SlotMachine D
  | [], m => (none, m)
  | x :: xs, m =>
    match input x.1.name with
    | none => (some ⟨.unknownIdentifier, "Missing model input"⟩, m)
    | some d => load input xs { m with slots := Function.update m.slots x.1.slot d }

def stage (layout : Layout) (m : SlotMachine D) : SlotMachine D :=
  { m with staged := fun i => match layout.commits[i]? with | some c => some (m.slots c.updateSlot) | none => m.staged i }

def shown (layout : Layout) (m : SlotMachine D) (slot : Nat) : D :=
  (layout.commits.zipIdx.findSome? fun x => if x.1.stateSlot = slot then m.staged x.2 else none).getD (m.slots slot)

variable [Double D]

def refresh (layout : Layout) (m : SlotMachine D) : SlotMachine D :=
  { m with outputs := List.zipWith (fun r o =>
      if r.resultKind = .bool then o.setBool (Double.ne (m.shown layout r.slot) Double.zero)
      else o.setNumber (m.shown layout r.slot)) layout.outputs m.outputs }

/-- One step: the updates of the last one are committed, the inputs loaded and the code run. -/
def step (layout : Layout) (exec : (Nat → D) → Option Error × (Nat → D)) (input : String → Option D)
    (m : SlotMachine D) : Option Error × SlotMachine D :=
  match load input layout.inputs.zipIdx (layout.commits.zipIdx.foldl commit m) with
  | (some err, m) => (some err, m)
  | (none, m) =>
    match exec m.slots with
    | (some err, slots) => (some err, { m with slots := slots })
    | (none, slots) => (none, refresh layout (stage layout { m with slots := slots }))

end SlotMachine

def Layout.Own (layout : Layout) (n : String) : Prop := n ∈ layout.slotNames ∧ ∀ r ∈ layout.inputs, r.name ≠ n

structure View.Beside (layout : Layout) (view view' : View D) : Prop where
  cell : ∀ n, ¬ layout.Own n → view'.cell n = view.cell n
  params : view'.params = view.params
  histories : view'.histories = view.histories
  stateBuffers : view'.stateBuffers = view.stateBuffers

theorem View.Beside.refl (layout : Layout) (view : View D) : view.Beside layout view := ⟨fun _ _ => rfl, rfl, rfl, rfl⟩

theorem View.Beside.trans {layout : Layout} {u v w : View D} (h : u.Beside layout v) (h' : v.Beside layout w) :
    u.Beside layout w :=
  ⟨fun n hn => (h'.cell n hn).trans (h.cell n hn), h'.params.trans h.params, h'.histories.trans h.histories,
    h'.stateBuffers.trans h.stateBuffers⟩

theorem View.Beside.symm {layout : Layout} {u v : View D} (h : u.Beside layout v) : v.Beside layout u :=
  ⟨fun n hn => (h.cell n hn).symm, h.params.symm, h.histories.symm, h.stateBuffers.symm⟩

/-- What `cxpr_model_try_compile_fused_ir` makes sure of: every state and output has a slot, outputs that are no states are
    exported once, and the code stores nothing in the slots of the inputs. -/
structure Layout.Compiles (layout : Layout) (rt : FusedRuntime D χ β) (p : Program D) : Prop where
  input_slots : (layout.inputs.map (·.slot)).Nodup
  input_state : ∀ r ∈ layout.inputs, ∀ st ∈ p.stateDefaults, st.name ≠ r.name
  state_slots : ∀ st ∈ p.stateDefaults, st.name ∈ layout.slotNames
  commit_state : ∀ c ∈ layout.commits, ∃ st ∈ p.stateDefaults, st.name = layout.stateName c
  export_slots : ∀ r ∈ layout.exports, r.name ∈ layout.slotNames
  export_names : (layout.exports.map (·.name)).Nodup
  export_state : ∀ r ∈ layout.exports, ∀ c ∈ layout.commits, r.name ≠ layout.stateName c
  export_slot : ∀ r ∈ layout.exports, ∀ r' ∈ layout.inputs, r.name = r'.name → r.slot = r'.slot
  outputs : layout.outputs.length = p.outputs.length
  kept : ∀ view slots, ∀ r ∈ layout.inputs, (rt.execScalarFast view slots).2 r.slot = slots r.slot

/-- What it does not: no input has the name of a limited parameter or is a field of a variable of the session's own, an input
    that is also an output is no field and keeps its type when it is written back, and the code reads nothing of the
    session's own from the context. -/
structure Layout.Fits (layout : Layout) (types : String → ValueType) (rt : FusedRuntime D χ β) (p : Program D) : Prop
    extends layout.Compiles rt p where
  limits : ∀ k ∈ p.constants, k.limited = true → ∀ r ∈ layout.inputs, r.name ≠ k.name
  roots : ∀ r ∈ layout.inputs, ∀ root field, r.name.splitOn "." = [root, field] → ¬ layout.Own root
  export_undotted : ∀ r ∈ layout.exports, ∀ r' ∈ layout.inputs, r.name = r'.name →
    ∀ root field, r.name.splitOn "." ≠ [root, field]
  export_type : ∀ r ∈ layout.exports, ∀ r' ∈ layout.inputs, r.name = r'.name →
    types r.name = .number ∧ r.resultKind ≠ .bool ∨ types r.name = .bool ∧ r.resultKind = .bool
  insulated : ∀ view view' slots, view.Beside layout view' → rt.execScalarFast view' slots = rt.execScalarFast view slots

/-- A session between its fused ticks: numbers stand alone under bound entries, each input has its type, and no limited
    parameter has a variable that is not the session's own. -/
structure Settled (layout : Layout) (types : String → ValueType) (p : Program D) (s : Running D χ β) : Prop where
  plain : BoundPlain layout s
  only : InputsOnly types layout s
  unbound : ∀ i r, layout.exports[i]? = some r → r.resultKind = .bool → s.bound .export_ i = none
  limits : ∀ k ∈ p.constants, k.limited = true → ¬ layout.Own k.name →
    (s.ctx.cell k.name).var = none ∧ (s.ctx.cell k.name).bool = none
  cached : ∀ r ∈ layout.inputs, s.effects.cached r.name = none ∧
    ∀ root field, r.name.splitOn "." = [root, field] → s.effects.cached root = none
  outputs : s.outputs.length = layout.outputs.length

section
variable {layout : Layout} {types : String → ValueType} {p : Program D} {s t : Running D χ β}

variable {n : String} {c : Cell D} {use : SlotUse} {r : SlotRef} {xs : List (SlotRef × Nat)}

theorem Settled.update (hs : Settled layout types p s)
    (hcell : ∀ m, t.ctx.cell m = if m = n then c else s.ctx.cell m) (heff : t.effects = s.effects)
    (hout : t.outputs = s.outputs) (hlimits : ∀ k ∈ p.constants, k.limited = true → ¬ layout.Own k.name → n ≠ k.name)
    (honly : ∀ r ∈ layout.inputs, r.name = n → Only (types n) c)
    (hplain : BoundPlain layout t)
    (hunbound : ∀ i r, layout.exports[i]? = some r → r.resultKind = .bool → t.bound .export_ i = none) :
    Settled layout types p t where
  plain := hplain
  only := fun r hr => by
    rw [hcell]
    split
    · rename_i hn
      rw [hn]
      exact honly r hr hn
    · exact hs.only r hr
  unbound := hunbound
  limits := fun k hk hlimited hown => by
    rw [hcell, if_neg (Ne.symm (hlimits k hk hlimited hown))]
    exact hs.limits k hk hlimited hown
  cached := fun r hr => by
    rw [heff]
    exact hs.cached r hr
  outputs := by rw [hout, hs.outputs]

theorem unbound_of_write (hs : Settled layout types p s) {i : Nat} {bound : SlotUse → Nat → Option β}
    (hbound : ∀ use' j, bound use' j ≠ none → s.bound use' j ≠ none ∨ use' = use ∧ j = i)
    (huse : use = .export_ → ∀ r, layout.exports[i]? = some r → r.resultKind ≠ .bool) :
    ∀ j r, layout.exports[j]? = some r → r.resultKind = .bool → bound .export_ j = none := by
  intro j r hr hkind
  by_contra hb
  rcases hbound .export_ j hb with hb | ⟨rfl, rfl⟩
  · exact hb (hs.unbound j r hr hkind)
  · exact huse rfl r hr hkind

/-! ### The parts of a fused tick -/

variable [DecidableEq β] [Double D] {rt : FusedRuntime D χ β}

omit [DecidableEq β] [Double D] in
theorem Layout.input_not_own (hr : r ∈ layout.inputs) :
    ¬ layout.Own r.name := fun ⟨_, hinput⟩ => hinput r hr rfl

omit [DecidableEq β] [Double D] in
theorem Layout.Compiles.own_state (h : layout.Compiles rt p) {c : StateCommit} (hc : c ∈ layout.commits) :
    layout.Own (layout.stateName c) := by
  obtain ⟨st, hst, hname⟩ := h.commit_state c hc
  refine ⟨hname ▸ h.state_slots st hst, fun r hr heq => ?_⟩
  exact h.input_state r hr st hst (hname.trans heq.symm)

omit [DecidableEq β] [Double D] in
theorem Layout.Compiles.own_or_input (h : layout.Compiles rt p) (hr : r ∈ layout.exports) :
    layout.Own r.name ∨ ∃ r' ∈ layout.inputs, r'.name = r.name := by
  by_cases hinput : ∃ r' ∈ layout.inputs, r'.name = r.name
  · exact Or.inr hinput
  · exact Or.inl ⟨h.export_slots r hr, fun r' hr' heq => hinput ⟨r', hr', heq⟩⟩

omit [DecidableEq β] [Double D] in
theorem Layout.Fits.limited_ne (h : layout.Fits types rt p) {k : Constant D} (hk : k ∈ p.constants)
    (hlimited : k.limited = true) (hown : ¬ layout.Own k.name)
    (hn : layout.Own n ∨ ∃ r ∈ layout.inputs, r.name = n) : n ≠ k.name := by
  rintro rfl
  obtain ⟨r, hr, hname⟩ := hn.resolve_left hown
  exact h.limits k hk hlimited r hr hname

omit [Double D] in
theorem Settled.commit (hs : Settled layout types p s) (hfits : layout.Fits types rt p) (materialize : Bool)
    {x : StateCommit × Nat} (hx : x ∈ layout.commits.zipIdx) :
    (commitFused rt layout materialize s x).machine = s.machine.commit x ∧
      s.view.Beside layout (commitFused rt layout materialize s x).view ∧
      Settled layout types p (commitFused rt layout materialize s x) := by
  have hcommit := List.mem_of_getElem? (mem_zipIdx hx)
  unfold commitFused SlotMachine.commit
  show _ = (match s.staged x.2 with | none => s.machine | some value => _) ∧ _
  cases hstaged : s.staged x.2 with
  | none => exact ⟨rfl, View.Beside.refl layout _, hs⟩
  | some value =>
    cases materialize with
    | false =>
      exact ⟨rfl, View.Beside.refl layout _, hs.plain, hs.only, hs.unbound, hs.limits, hs.cached, hs.outputs⟩
    | true =>
      have hname : layout.nameOf .commit x.2 = some (layout.stateName x.1) := by
        show (layout.commits[x.2]?).map layout.stateName = _
        rw [mem_zipIdx hx]
        rfl
      have hown := hfits.own_state hcommit
      let s' : Running D χ β := { s with
        slots := Function.update s.slots x.1.stateSlot value
        staged := Function.update s.staged x.2 none }
      have hplain : BoundPlain layout s' := hs.plain
      obtain ⟨hplain', -⟩ := hplain.write rt value hname
      obtain ⟨ctx, bound, heq, hcell, hparams, hbound⟩ :=
        Running.write_spec rt value (hplain .commit x.2 _ hname)
      show (s'.write rt .commit x.2 (layout.stateName x.1) value).machine = _ ∧
        s.view.Beside layout (s'.write rt .commit x.2 (layout.stateName x.1) value).view ∧
        Settled layout types p (s'.write rt .commit x.2 (layout.stateName x.1) value)
      rw [heq] at hplain' ⊢
      refine ⟨rfl, ⟨fun n hn => ?_, hparams, rfl, rfl⟩, ?_⟩
      · refine (hcell n).trans (if_neg ?_)
        rintro rfl
        exact hn hown
      · refine hs.update hcell rfl rfl (fun k hk hlimited hk' => hfits.limited_ne hk hlimited hk' (Or.inl hown)) ?_
          hplain' ?_
        · intro r hr hname
          exact absurd hname (hown.2 r hr)
        · exact unbound_of_write hs hbound nofun

omit [Double D] in
theorem Settled.commits (hs : Settled layout types p s) (hfits : layout.Fits types rt p) (materialize : Bool)
    {xs : List (StateCommit × Nat)} (hxs : xs ⊆ layout.commits.zipIdx) :
    (xs.foldl (commitFused rt layout materialize) s).machine = xs.foldl SlotMachine.commit s.machine ∧
      s.view.Beside layout (xs.foldl (commitFused rt layout materialize) s).view ∧
      Settled layout types p (xs.foldl (commitFused rt layout materialize) s) := by
  induction xs generalizing s with
  | nil => exact ⟨rfl, View.Beside.refl layout _, hs⟩
  | cons x xs ih =>
    obtain ⟨hmachine, hbeside, hsettled⟩ := hs.commit hfits materialize (hxs List.mem_cons_self)
    obtain ⟨hmachine', hbeside', hsettled'⟩ := ih hsettled fun y hy => hxs (List.mem_cons_of_mem x hy)
    exact ⟨by rw [List.foldl_cons, List.foldl_cons, hmachine', hmachine], hbeside.trans hbeside', hsettled'⟩

def Running.input (rt : FusedRuntime D χ β) (s : Running D χ β) (n : String) : Option D :=
  (s.historyValue n).map (scalarInput rt)

theorem Settled.readInput (hs : Settled layout types p s) (rt : FusedRuntime D χ β) {x : SlotRef × Nat} (hx : x ∈ layout.inputs.zipIdx) :
    (s.input rt x.1.name = none → readInput rt s x = none) ∧
      ∀ d, s.input rt x.1.name = some d → ∃ t : Running D χ β, readInput rt s x = some t ∧
        t.toSession = s.toSession ∧ t.machine = { s.machine with slots := Function.update s.slots x.1.slot d } ∧
        Settled layout types p t := by
  obtain ⟨hnone, hsome⟩ := readInput_spec rt hs.plain hs.only (mem_zipIdx hx)
  refine ⟨fun h => hnone (Option.map_eq_none_iff.mp h), fun d hd => ?_⟩
  obtain ⟨v, hv, rfl⟩ := Option.map_eq_some_iff.mp hd
  obtain ⟨bound, hplain, hread⟩ := hsome v hv
  refine ⟨_, hread, rfl, rfl, hplain, hs.only, fun i r hr hkind => ?_, hs.limits, hs.cached, hs.outputs⟩
  have hsame : bound .export_ i = s.bound .export_ i := by
    unfold Model.readInput at hread
    split at hread
    · exact (congrFun (congrFun (congrArg Running.bound (Option.some.inj hread)) .export_) i).symm
    · rw [hv] at hread
      exact (congrFun (congrFun (congrArg Running.bound (Option.some.inj hread)) .export_) i).symm
  exact hsame.trans (hs.unbound i r hr hkind)

theorem Settled.readInputs (hs : Settled layout types p s) (rt : FusedRuntime D χ β)
    (hxs : xs ⊆ layout.inputs.zipIdx) :
    (Model.readInputs rt xs s).1 = (s.machine.load (s.input rt) xs).1 ∧
      (Model.readInputs rt xs s).2.machine = (s.machine.load (s.input rt) xs).2 ∧
      (Model.readInputs rt xs s).2.toSession = s.toSession ∧ Settled layout types p (Model.readInputs rt xs s).2 := by
  induction xs generalizing s with
  | nil => exact ⟨rfl, rfl, rfl, hs⟩
  | cons x xs ih =>
    obtain ⟨hnone, hsome⟩ := hs.readInput rt (hxs List.mem_cons_self)
    unfold Model.readInputs SlotMachine.load
    cases hinput : s.input rt x.1.name with
    | none =>
      rw [hnone hinput]
      exact ⟨rfl, rfl, rfl, hs⟩
    | some d =>
      obtain ⟨t, hread, hsession, hmachine, hsettled⟩ := hsome d hinput
      obtain ⟨h₁, h₂, h₃, h₄⟩ := ih hsettled fun y hy => hxs (List.mem_cons_of_mem x hy)
      have hvalues : t.input rt = s.input rt := by
        unfold Running.input
        rw [hsession]
      rw [hread]
      rw [hvalues, hmachine] at h₁ h₂
      exact ⟨h₁, h₂, h₃.trans hsession, h₄⟩

def Loaded (rt : FusedRuntime D χ β) (layout : Layout) (s : Running D χ β) : Prop :=
  ∀ r ∈ layout.inputs, s.input rt r.name = some (s.slots r.slot)

omit [DecidableEq β] [Double D] in
theorem load_slots {input : String → Option D} {m m' : SlotMachine D}
    (hnodup : (xs.map (·.1.slot)).Nodup) (h : m.load input xs = (none, m')) :
    (∀ x ∈ xs, input x.1.name = some (m'.slots x.1.slot)) ∧ ∀ k, (∀ x ∈ xs, x.1.slot ≠ k) → m'.slots k = m.slots k := by
  induction xs generalizing m with
  | nil =>
    cases h
    exact ⟨nofun, fun _ _ => rfl⟩
  | cons x xs ih =>
    obtain ⟨hx, hxs⟩ := List.nodup_cons.mp hnodup
    unfold SlotMachine.load at h
    cases hinput : input x.1.name with
    | none =>
      rw [hinput] at h
      cases h
    | some d =>
      rw [hinput] at h
      obtain ⟨hloaded, hkept⟩ := ih hxs h
      have hself : m'.slots x.1.slot = d := by
        rw [hkept x.1.slot fun y hy heq => hx (List.mem_map.mpr ⟨y, hy, heq⟩)]
        exact Function.update_self _ _ _
      refine ⟨List.forall_mem_cons.mpr ⟨by rw [hinput, hself], hloaded⟩, fun k hk => ?_⟩
      rw [hkept k fun y hy => hk y (List.mem_cons_of_mem x hy)]
      exact Function.update_of_ne (Ne.symm (hk x List.mem_cons_self)) _ _

omit [DecidableEq β] [Double D] in
theorem historyValue_undotted (hundotted : ∀ root field, n.splitOn "." ≠ [root, field])
    (hcached : s.effects.cached n = none) : s.historyValue n = (s.ctx.cell n).read := by
  unfold Session.historyValue Session.getTyped
  rw [hcached]
  split
  · rename_i hsplit
    exact absurd hsplit (hundotted _ _)
  · cases (s.ctx.cell n).read <;> rfl

omit [DecidableEq β] in
theorem export_input (hs : Settled layout types p s) (hfits : layout.Fits types rt p) (hloaded : Loaded rt layout s)
    {r' : SlotRef} (hr : r ∈ layout.exports) (hr' : r' ∈ layout.inputs) (hname : r.name = r'.name) :
    (types r.name = .number ∧ r.resultKind ≠ .bool ∧ s.ctx.cell r.name = { var := some (s.slots r.slot) }) ∨
    (types r.name = .bool ∧ r.resultKind = .bool ∧
      s.ctx.cell r.name = { bool := some (Double.ne (s.slots r.slot) Double.zero) }) := by
  have hundotted := hfits.export_undotted r hr r' hr' hname
  have htype := hfits.export_type r hr r' hr' hname
  have hload := hloaded r' hr'
  have honly := hs.only r' hr'
  rw [← hname] at hload honly
  rw [hfits.export_slot r hr r' hr' hname]
  unfold Running.input at hload
  rw [historyValue_undotted hundotted (hname ▸ (hs.cached r' hr').1)] at hload
  obtain ⟨v, hread, hslot⟩ := Option.map_eq_some_iff.mp hload
  rcases honly with hempty | ⟨u, hu, hcell⟩
  · rw [hempty] at hread
    cases hread
  · rw [hcell] at hread
    rcases htype with ⟨htype, hkind⟩ | ⟨htype, hkind⟩
    · refine Or.inl ⟨htype, hkind, ?_⟩
      rw [htype] at hu
      cases u with
      | number d =>
        cases hread
        rw [hcell, ← hslot]
        rfl
      | _ => cases hu
    · refine Or.inr ⟨htype, hkind, ?_⟩
      rw [htype] at hu
      cases u with
      | bool b =>
        cases hread
        rw [hcell, ← hslot]
        simp [Cell.put, scalarInput]
      | _ => cases hu

omit [DecidableEq β] [Double D] in
theorem export_index {i j : Nat} {r' : SlotRef} (hnodup : (layout.exports.map (·.name)).Nodup)
    (hi : layout.exports[i]? = some r) (hj : layout.exports[j]? = some r') (hname : r.name = r'.name) : i = j := by
  obtain ⟨hlt, -⟩ := List.getElem?_eq_some_iff.mp hi
  refine (List.getElem?_inj (by rwa [List.length_map]) hnodup).mp ?_
  rw [List.getElem?_map, List.getElem?_map, hi, hj]
  exact congrArg some hname

omit [DecidableEq β] [Double D] in
theorem unbound_export (hs : Settled layout types p s) (hfits : layout.Fits types rt p) {i : Nat}
    (hr : layout.exports[i]? = some r) (hkind : r.resultKind = .bool) {j : Nat}
    (hname : layout.nameOf use j = some r.name) : s.bound use j = none := by
  have hmem := List.mem_of_getElem? hr
  by_contra hb
  have hplain := hs.plain use j r.name hname hb
  cases use with
  | commit =>
    obtain ⟨c, hc, hcname⟩ := Option.map_eq_some_iff.mp hname
    exact hfits.export_state r hmem c (List.mem_of_getElem? hc) hcname.symm
  | input =>
    obtain ⟨r', hr', hrname⟩ := Option.map_eq_some_iff.mp hname
    have hinput := List.mem_of_getElem? hr'
    have honly := hs.only r' hinput
    rw [hrname] at honly
    obtain ⟨-, hne⟩ | ⟨htype, -⟩ := hfits.export_type r hmem r' hinput hrname.symm
    · exact hne hkind
    · obtain ⟨d, hd⟩ := hplain
      obtain ⟨hnumber, -⟩ := honly.plain (by rw [hd]; exact Option.some_ne_none d)
      rw [htype] at hnumber
      cases hnumber
  | export_ =>
    obtain ⟨r', hr', hrname⟩ := Option.map_eq_some_iff.mp hname
    obtain rfl := export_index hfits.export_names hr hr' hrname.symm
    exact hb (hs.unbound i r hr hkind)

omit [DecidableEq β] in
theorem Settled.input_eq (hs : Settled layout types p s) (ht : Settled layout types p t) (hfits : layout.Fits types rt p)
    (h : s.view.Beside layout t.view) (hr : r ∈ layout.inputs) : t.input rt r.name = s.input rt r.name := by
  have hcell : t.ctx.cell r.name = s.ctx.cell r.name := h.cell r.name (Layout.input_not_own hr)
  have hvalue : t.historyValue r.name = s.historyValue r.name := by
    unfold Session.historyValue
    have htyped : t.getTyped r.name = s.getTyped r.name := by
      unfold Session.getTyped
      rw [hcell, (hs.cached r hr).1, (ht.cached r hr).1]
    rw [htyped]
    split
    · rename_i root field hsplit
      have hroot : t.ctx.cell root = s.ctx.cell root := h.cell root (hfits.roots r hr root field hsplit)
      unfold Session.getField Session.getTyped
      rw [hroot, (hs.cached r hr).2 root field hsplit, (ht.cached r hr).2 root field hsplit]
    · rfl
  unfold Running.input
  rw [hvalue]

omit [DecidableEq β] in
theorem Settled.writeBack (hs : Settled layout types p s) (hfits : layout.Fits types rt p) (hloaded : Loaded rt layout s) (hr : r ∈ layout.exports)
    (hc : ∀ r' ∈ layout.inputs, r.name = r'.name → c = s.ctx.cell r.name) {ctx : Frame D}
    {bound : SlotUse → Nat → Option β} (hcell : ∀ m, ctx.cell m = if m = r.name then c else s.ctx.cell m)
    (hparams : ctx.paramStores = s.ctx.paramStores) (hplain : BoundPlain layout { s with ctx := ctx, bound := bound })
    (hunbound : ∀ i r, layout.exports[i]? = some r → r.resultKind = .bool → bound .export_ i = none) :
    s.view.Beside layout ({ s with ctx := ctx, bound := bound } : Running D χ β).view ∧
      Settled layout types p { s with ctx := ctx, bound := bound } ∧
      Loaded rt layout { s with ctx := ctx, bound := bound } := by
  have hknown := hfits.own_or_input hr
  have hbeside : s.view.Beside layout ({ s with ctx := ctx, bound := bound } : Running D χ β).view := by
    refine ⟨fun n hn => (hcell n).trans ?_, hparams, rfl, rfl⟩
    split
    · rename_i heq
      subst heq
      obtain ⟨r', hr', hname⟩ := hknown.resolve_left hn
      exact hc r' hr' hname.symm
    · rfl
  have hsettled : Settled layout types p { s with ctx := ctx, bound := bound } := by
    refine hs.update hcell rfl rfl (fun k hk hlimited hown => hfits.limited_ne hk hlimited hown hknown) ?_ hplain hunbound
    intro r' hr' hname
    rw [hc r' hr' hname.symm, ← hname]
    exact hs.only r' hr'
  refine ⟨hbeside, hsettled, fun r' hr' => ?_⟩
  rw [hs.input_eq hsettled hfits hbeside hr']
  exact hloaded r' hr'

theorem Settled.export (hs : Settled layout types p s) (hfits : layout.Fits types rt p) (hloaded : Loaded rt layout s)
    {x : SlotRef × Nat} (hx : x ∈ layout.exports.zipIdx) :
    (exportFused rt s x).machine = s.machine ∧ s.view.Beside layout (exportFused rt s x).view ∧
      Settled layout types p (exportFused rt s x) ∧ Loaded rt layout (exportFused rt s x) := by
  have hr := mem_zipIdx hx
  have hmem := List.mem_of_getElem? hr
  have hname : layout.nameOf .export_ x.2 = some x.1.name := by
    show (layout.exports[x.2]?).map (·.name) = _
    rw [hr]
    rfl
  have hinput := fun (r' : SlotRef) (hr' : r' ∈ layout.inputs) => export_input hs hfits hloaded hmem hr'
  unfold exportFused
  split
  · rename_i hkind
    refine ⟨rfl, hs.writeBack hfits hloaded hmem
      (c := (s.ctx.cell x.1.name).put (.bool (Double.ne (s.slots x.1.slot) Double.zero))) (fun r' hr' heq => ?_)
      (fun m => ?_) (Frame.paramStores_setValue s.ctx x.1.name (.bool _)) (fun use j n hn hb => ?_) hs.unbound⟩
    · obtain ⟨-, hne, -⟩ | ⟨-, -, hcell⟩ := hinput r' hr' heq
      · exact absurd hkind hne
      · rw [hcell]
        rfl
    · rw [show s.ctx.setBool x.1.name _ = s.ctx.setValue x.1.name (.bool _) from rfl, Frame.cell_setValue]
      split
      · rename_i hm
        rw [hm]
      · rfl
    · show Plain ((s.ctx.setValue x.1.name (.bool _)).cell n)
      have hne : n ≠ x.1.name := by
        rintro rfl
        exact hb (unbound_export hs hfits hr hkind hn)
      rw [Frame.cell_setValue_of_ne s.ctx _ hne]
      exact hs.plain use j n hn hb
  · rename_i hkind
    obtain ⟨hplain, -⟩ := hs.plain.write rt (s.slots x.1.slot) hname
    obtain ⟨ctx, bound, heq, hcell, hparams, hbound⟩ :=
      Running.write_spec rt (s.slots x.1.slot) (hs.plain .export_ x.2 _ hname)
    rw [heq] at hplain ⊢
    refine ⟨rfl, hs.writeBack hfits hloaded hmem (fun r' hr' heq => ?_) hcell hparams hplain ?_⟩
    · obtain ⟨-, -, hcell⟩ | ⟨-, hbool, -⟩ := hinput r' hr' heq
      · exact hcell.symm
      · exact absurd hbool hkind
    · refine unbound_of_write hs hbound fun _ r hr' => ?_
      rw [hr] at hr'
      cases hr'
      exact hkind

theorem Settled.exports (hs : Settled layout types p s) (hfits : layout.Fits types rt p) (hloaded : Loaded rt layout s) (hxs : xs ⊆ layout.exports.zipIdx) :
    (xs.foldl (exportFused rt) s).machine = s.machine ∧ s.view.Beside layout (xs.foldl (exportFused rt) s).view ∧
      Settled layout types p (xs.foldl (exportFused rt) s) := by
  induction xs generalizing s with
  | nil => exact ⟨rfl, View.Beside.refl layout _, hs⟩
  | cons x xs ih =>
    obtain ⟨hmachine, hbeside, hsettled, hloaded'⟩ := hs.export hfits hloaded (hxs List.mem_cons_self)
    obtain ⟨hmachine', hbeside', hsettled'⟩ := ih hsettled hloaded' fun y hy => hxs (List.mem_cons_of_mem x hy)
    exact ⟨hmachine'.trans hmachine, hbeside.trans hbeside', hsettled'⟩

omit [DecidableEq β] [Double D] in
theorem load_congr {input input' : String → Option D}
    (h : ∀ x ∈ xs, input' x.1.name = input x.1.name) (m : SlotMachine D) : m.load input' xs = m.load input xs := by
  induction xs generalizing m with
  | nil => rfl
  | cons x xs ih =>
    unfold SlotMachine.load
    rw [h x List.mem_cons_self]
    cases input x.1.name with
    | none => rfl
    | some d => exact ih (fun y hy => h y (List.mem_cons_of_mem x hy)) _

omit [DecidableEq β] in
theorem Settled.refresh (hs : Settled layout types p s) :
    (refreshOutputsFused p layout s).machine = s.machine.refresh layout ∧
      s.view.Beside layout (refreshOutputsFused p layout s).view ∧
      Settled layout types p (refreshOutputsFused p layout s) := by
  unfold refreshOutputsFused
  rw [if_pos hs.outputs.symm]
  refine ⟨rfl, View.Beside.refl layout _, hs.plain, hs.only, hs.unbound, hs.limits, hs.cached, ?_⟩
  simp [hs.outputs]

theorem Settled.finish (hs : Settled layout types p s) (hfits : layout.Fits types rt p) (hspecs : p.historySpecs = [])
    (hloaded : Loaded rt layout s) (materialize : Bool) :
    (finishFused rt p layout materialize s).1 = none ∧
      (finishFused rt p layout materialize s).2.machine = (s.machine.stage layout).refresh layout ∧
      s.view.Beside layout (finishFused rt p layout materialize s).2.view ∧
      Settled layout types p (finishFused rt p layout materialize s).2 := by
  have hstage : Settled layout types p (stageFused layout s) :=
    ⟨hs.plain, hs.only, hs.unbound, hs.limits, hs.cached, hs.outputs⟩
  unfold finishFused
  cases materialize with
  | false =>
    obtain ⟨hmachine, hbeside, hsettled⟩ := hstage.refresh
    exact ⟨rfl, hmachine, hbeside, hsettled⟩
  | true =>
    obtain ⟨hmachine, hbeside, hsettled⟩ := hstage.exports hfits hloaded (List.Subset.refl layout.exports.zipIdx)
    obtain ⟨hmachine', hbeside', hsettled'⟩ := hsettled.refresh
    rw [hspecs]
    exact ⟨rfl, hmachine'.trans (by rw [hmachine]; rfl), hbeside.trans hbeside', hsettled'⟩

theorem tickFused_missing {materialize : Bool} {u : Running D χ β} {err : Error}
    (h : Model.readInputs rt layout.inputs.zipIdx
      (layout.commits.zipIdx.foldl (commitFused rt layout materialize) s) = (some err, u)) :
    Model.tickFused rt p layout materialize s = (some err, u) := by
  unfold Model.tickFused runFused
  rw [h]

theorem tickFused_read {materialize : Bool} {u : Running D χ β}
    (h : Model.readInputs rt layout.inputs.zipIdx
      (layout.commits.zipIdx.foldl (commitFused rt layout materialize) s) = (none, u)) :
    Model.tickFused rt p layout materialize s =
      proceed ((rt.execScalarFast u.view u.slots).map id fun slots => { u with slots := slots })
        (finishFused rt p layout materialize) := by
  have hrun : runFused rt layout materialize s =
      (rt.execScalarFast u.view u.slots).map id fun slots => { u with slots := slots } := by
    unfold runFused
    rw [h]
    rfl
  unfold Model.tickFused
  rw [← hrun]
  rcases runFused rt layout materialize s with ⟨_ | err, t⟩ <;> rfl

theorem Settled.tickFused (hs : Settled layout types p s) (hfits : layout.Fits types rt p) (hspecs : p.historySpecs = [])
    (materialize : Bool) :
    (tickFused rt p layout materialize s).1 = (s.machine.step layout (rt.execScalarFast s.view) (s.input rt)).1 ∧
      (tickFused rt p layout materialize s).2.machine =
        (s.machine.step layout (rt.execScalarFast s.view) (s.input rt)).2 ∧
      s.view.Beside layout (tickFused rt p layout materialize s).2.view ∧
      Settled layout types p (tickFused rt p layout materialize s).2 := by
  obtain ⟨hmachine, hbeside, hsettled⟩ := hs.commits hfits materialize (List.Subset.refl layout.commits.zipIdx)
  obtain ⟨hresult, hloaded, hsession, hread⟩ := hsettled.readInputs rt (List.Subset.refl layout.inputs.zipIdx)
  have hinputs := load_congr (m := layout.commits.zipIdx.foldl SlotMachine.commit s.machine) fun x hx =>
    hs.input_eq hsettled hfits hbeside (List.mem_of_getElem? (mem_zipIdx hx))
  rw [hmachine, hinputs] at hresult hloaded
  rcases hload : (layout.commits.zipIdx.foldl SlotMachine.commit s.machine).load (s.input rt) layout.inputs.zipIdx
    with ⟨missing, m⟩
  rcases hreads : Model.readInputs rt layout.inputs.zipIdx
    (layout.commits.zipIdx.foldl (commitFused rt layout materialize) s) with ⟨missing', u⟩
  rw [hload, hreads] at hresult hloaded
  rw [hreads] at hsession hread
  obtain rfl : missing' = missing := hresult
  obtain rfl : u.machine = m := hloaded
  have hu : Settled layout types p u := hread
  have hview : s.view.Beside layout u.view := by
    have heq : u.view = (layout.commits.zipIdx.foldl (commitFused rt layout materialize) s).view :=
      congrArg Session.view hsession
    rw [heq]
    exact hbeside
  unfold SlotMachine.step
  rw [hload]
  cases missing' with
  | some err =>
    rw [tickFused_missing hreads]
    exact ⟨rfl, rfl, hview, hu⟩
  | none =>
    rw [tickFused_read hreads]
    have hexec : rt.execScalarFast s.view u.machine.slots = rt.execScalarFast u.view u.slots :=
      (hfits.insulated s.view u.view u.slots hview).symm
    show _ = Prod.fst (match rt.execScalarFast s.view u.machine.slots with
      | (some err, slots) => (some err, { u.machine with slots := slots })
      | (none, slots) => (none, ({ u.machine with slots := slots }.stage layout).refresh layout)) ∧
      _ = Prod.snd (match rt.execScalarFast s.view u.machine.slots with
      | (some err, slots) => (some err, { u.machine with slots := slots })
      | (none, slots) => (none, ({ u.machine with slots := slots }.stage layout).refresh layout)) ∧ _
    rw [hexec]
    rcases hran : rt.execScalarFast u.view u.slots with ⟨_ | err, slots⟩
    · have hsettled' : Settled layout types p { u with slots := slots } :=
        ⟨hu.plain, hu.only, hu.unbound, hu.limits, hu.cached, hu.outputs⟩
      have hnodup : (layout.inputs.zipIdx.map (·.1.slot)).Nodup := by
        have hfst := congrArg (List.map SlotRef.slot) (List.zipIdx_map_fst 0 layout.inputs)
        rw [List.map_map] at hfst
        exact hfst ▸ hfits.input_slots
      obtain ⟨hfilled, -⟩ := load_slots hnodup hload
      have hkept : Loaded rt layout { u with slots := slots } := by
        intro r hr
        obtain ⟨i, hi⟩ := List.mem_iff_getElem?.mp hr
        have hvalue := hfilled (r, i) (List.mem_zipIdx_iff_getElem?.mpr hi)
        have hslot : slots r.slot = u.slots r.slot := by
          rw [← hfits.kept u.view u.slots r hr, hran]
        show u.input rt r.name = some (slots r.slot)
        rw [hs.input_eq hu hfits hview hr, hslot]
        exact hvalue
      obtain ⟨hdone, hfinal, hbeside', hsettled''⟩ := hsettled'.finish hfits hspecs hkept materialize
      exact ⟨hdone, hfinal, hview.trans hbeside', hsettled''⟩
    · exact ⟨rfl, rfl, hview, hu.plain, hu.only, hu.unbound, hu.limits, hu.cached, hu.outputs⟩

/-! ### What the host writes -/

omit [DecidableEq β] [Double D] in
/-- The host writes each input with its type, no variable of the session's own and none of a limited parameter; a struct
    parameter has a name that no variable of the model has. -/
structure HostWrites.Suits (w : HostWrites D) (layout : Layout) (types : String → ValueType) (p : Program D) : Prop where
  typed : ∀ x ∈ w.inputs, (∃ r ∈ layout.inputs, r.name = x.1) → x.2.type = types x.1
  foreign : ∀ x ∈ w.inputs, ¬ layout.Own x.1
  limits : ∀ x ∈ w.inputs, ∀ k ∈ p.constants, k.limited = true → x.1 ≠ k.name
  structs : ∀ x ∈ w.params, x.2.type = .struct → ¬ layout.Own x.1 ∧ ∀ r ∈ layout.inputs, r.name ≠ x.1

omit [DecidableEq β] [Double D] in
theorem own_or_input_of_bound (hcompiles : layout.Compiles rt p) {i : Nat}
    (hname : layout.nameOf use i = some n) : layout.Own n ∨ ∃ r ∈ layout.inputs, r.name = n := by
  cases use with
  | commit =>
    obtain ⟨c, hc, rfl⟩ := Option.map_eq_some_iff.mp hname
    exact Or.inl (hcompiles.own_state (List.mem_of_getElem? hc))
  | input =>
    obtain ⟨r, hr, rfl⟩ := Option.map_eq_some_iff.mp hname
    exact Or.inr ⟨r, List.mem_of_getElem? hr, rfl⟩
  | export_ =>
    obtain ⟨r, hr, rfl⟩ := Option.map_eq_some_iff.mp hname
    exact hcompiles.own_or_input (List.mem_of_getElem? hr)

omit [DecidableEq β] [Double D] in
theorem Settled.setInput (hs : Settled layout types p s) (hcompiles : layout.Compiles rt p) {v : Value D}
    (htyped : (∃ r ∈ layout.inputs, r.name = n) → v.type = types n) (hforeign : ¬ layout.Own n)
    (hlimits : ∀ k ∈ p.constants, k.limited = true → n ≠ k.name) :
    Settled layout types p { s with ctx := s.ctx.setValue n v } := by
  have hcell : ∀ m, (s.ctx.setValue n v).cell m = if m = n then (s.ctx.cell n).put v else s.ctx.cell m := by
    intro m
    rw [Frame.cell_setValue]
    split
    · rename_i hm
      rw [hm]
    · rfl
  refine hs.update hcell rfl rfl (fun k hk hlimited _ => hlimits k hk hlimited) (fun r hr hname => ?_)
    (fun use i m hm hb => ?_) hs.unbound
  · have honly := hs.only r hr
    rw [hname] at honly
    exact honly.put (htyped ⟨r, hr, hname⟩)
  · show Plain ((s.ctx.setValue n v).cell m)
    rw [hcell]
    split
    · rename_i heq
      subst heq
      obtain ⟨r, hr, hname⟩ := (own_or_input_of_bound hcompiles hm).resolve_left hforeign
      have honly := hs.only r hr
      rw [hname] at honly
      exact honly.plain_put (htyped ⟨r, hr, hname⟩) (hs.plain use i m hm hb)
    · exact hs.plain use i m hm hb

omit [DecidableEq β] [Double D] in
theorem Only.without_struct {ty : ValueType} (h : Only ty c) : Only ty { c with struct := none } := by
  obtain rfl | ⟨v, hv, rfl⟩ := h
  · exact Or.inl rfl
  · cases v with
    | struct fields => exact Or.inl rfl
    | _ => exact Or.inr ⟨_, hv, rfl⟩

omit [DecidableEq β] [Double D] in
theorem Settled.setParam (hs : Settled layout types p s) (hcompiles : layout.Compiles rt p) {v : Value D}
    (hstruct : v.type = .struct → ¬ layout.Own n ∧ ∀ r ∈ layout.inputs, r.name ≠ n) :
    Settled layout types p { s with ctx := s.ctx.setParamValue n v } := by
  have hcell : ∀ m, (layout.Own m ∨ ∃ r ∈ layout.inputs, r.name = m) → (s.ctx.setParamValue n v).cell m = s.ctx.cell m ∨
      (s.ctx.setParamValue n v).cell m = { s.ctx.cell m with struct := none } := by
    intro m hm
    by_cases hv : v.type = .struct
    · obtain ⟨hown, hinput⟩ := hstruct hv
      refine Or.inl (Frame.cell_setParamValue_of_ne s.ctx v ?_)
      rintro rfl
      obtain ⟨r, hr, hname⟩ := hm.resolve_left hown
      exact hinput r hr hname
    · exact Frame.cell_setParamValue_of_type s.ctx n m hv
  refine ⟨fun use i m hm hb => ?_, fun r hr => ?_, hs.unbound, fun k hk hlimited hown => ?_, hs.cached, hs.outputs⟩
  · have hplain := hs.plain use i m hm hb
    show Plain ((s.ctx.setParamValue n v).cell m)
    rcases hcell m (own_or_input_of_bound hcompiles hm) with heq | heq
    · rw [heq]
      exact hplain
    · rw [heq]
      obtain ⟨d, hd⟩ := hplain
      exact ⟨d, by rw [hd]⟩
  · show Only (types r.name) ((s.ctx.setParamValue n v).cell r.name)
    rcases hcell r.name (Or.inr ⟨r, hr, rfl⟩) with heq | heq
    · rw [heq]
      exact hs.only r hr
    · rw [heq]
      exact (hs.only r hr).without_struct
  · obtain ⟨struct, heq⟩ := Frame.cell_setParamValue s.ctx n k.name v
    show ((s.ctx.setParamValue n v).cell k.name).var = none ∧ ((s.ctx.setParamValue n v).cell k.name).bool = none
    rw [heq]
    exact hs.limits k hk hlimited hown

def Running.prepare (w : HostWrites D) (s : Running D χ β) : Running D χ β :=
  { s with toSession := Model.prepare w s.toSession }

omit [DecidableEq β] [Double D] in
theorem Settled.prepare (hs : Settled layout types p s) (hcompiles : layout.Compiles rt p) {w : HostWrites D}
    (hw : w.Suits layout types p) : Settled layout types p (s.prepare w) := by
  obtain ⟨inputs, params⟩ := w
  obtain ⟨htyped, hforeign, hlimits, hstructs⟩ := hw
  have hinputs : ∀ (xs : List (String × Value D)) (f : Frame D), xs ⊆ inputs →
      Settled layout types p { s with ctx := f } →
      Settled layout types p { s with ctx := xs.foldl (fun f x => f.setValue x.1 x.2) f } := by
    intro xs
    induction xs with
    | nil => exact fun f _ hf => hf
    | cons x xs ih =>
      intro f hsub hf
      have hx := hsub List.mem_cons_self
      exact ih _ (fun y hy => hsub (List.mem_cons_of_mem x hy))
        (hf.setInput hcompiles (htyped x hx) (hforeign x hx) (hlimits x hx))
  have hparams : ∀ (xs : List (String × Value D)) (f : Frame D), xs ⊆ params →
      Settled layout types p { s with ctx := f } →
      Settled layout types p { s with ctx := xs.foldl (fun f x => f.setParamValue x.1 x.2) f } := by
    intro xs
    induction xs with
    | nil => exact fun f _ hf => hf
    | cons x xs ih =>
      intro f hsub hf
      exact ih _ (fun y hy => hsub (List.mem_cons_of_mem x hy))
        (hf.setParam hcompiles (hstructs x (hsub List.mem_cons_self)))
  exact hparams params _ (List.Subset.refl _) (hinputs inputs s.ctx (List.Subset.refl _) hs)

omit [DecidableEq β] [Double D] in
theorem View.Beside.prepare (h : s.view.Beside layout t.view) (w : HostWrites D) :
    (s.prepare w).view.Beside layout (t.prepare w).view := by
  have hwrites : ∀ (xs : List (String × Value D)) (write : Frame D → String × Value D → Frame D),
      (∀ (f g : Frame D) (x : String × Value D) (n : String), g.cell n = f.cell n → (write g x).cell n = (write f x).cell n) →
      (∀ (f g : Frame D) (x : String × Value D), g.paramStores = f.paramStores →
        (write g x).paramStores = (write f x).paramStores) →
      ∀ f g : Frame D, (∀ n, ¬ layout.Own n → g.cell n = f.cell n) ∧ g.paramStores = f.paramStores →
        (∀ n, ¬ layout.Own n → (xs.foldl write g).cell n = (xs.foldl write f).cell n) ∧
          (xs.foldl write g).paramStores = (xs.foldl write f).paramStores := by
    intro xs write hcell hparams
    induction xs with
    | nil => exact fun _ _ hfg => hfg
    | cons x xs ih =>
      intro f g ⟨hcells, hstores⟩
      exact ih _ _ ⟨fun n hn => hcell f g x n (hcells n hn), hparams f g x hstores⟩
  have hinputs := hwrites w.inputs (fun f x => f.setValue x.1 x.2)
    (fun f g x n hn => by rw [Frame.cell_setValue, Frame.cell_setValue, hn])
    (fun f g x hstores => by rw [Frame.paramStores_setValue, Frame.paramStores_setValue, hstores])
    s.ctx t.ctx ⟨h.cell, h.params⟩
  obtain ⟨hcells, hstores⟩ := hwrites w.params (fun f x => f.setParamValue x.1 x.2)
    (fun f g x n hn => Frame.cell_setParamValue_congr x.1 x.2 hn)
    (fun f g x hs => Frame.paramStores_setParamValue_congr x.1 x.2 hs) _ _ hinputs
  exact ⟨hcells, hstores, h.histories, h.stateBuffers⟩

omit [DecidableEq β] in
theorem step_eq (hs : Settled layout types p s) (ht : Settled layout types p t) (hfits : layout.Fits types rt p)
    (h : s.view.Beside layout t.view) (hmachine : t.machine = s.machine) :
    t.machine.step layout (rt.execScalarFast t.view) (t.input rt) =
      s.machine.step layout (rt.execScalarFast s.view) (s.input rt) := by
  have hexec : rt.execScalarFast t.view = rt.execScalarFast s.view :=
    funext fun slots => hfits.insulated s.view t.view slots h
  have hload := load_congr (m := layout.commits.zipIdx.foldl SlotMachine.commit s.machine) fun x hx =>
    hs.input_eq ht hfits h (List.mem_of_getElem? (mem_zipIdx hx))
  unfold SlotMachine.step
  rw [hmachine, hexec, hload]

omit [DecidableEq β] in
theorem Settled.clamp (hs : Settled layout types p s) {k : Constant D} (hk : k ∈ p.constants) :
    ({ s with toSession := clampConstant s.toSession k } : Running D χ β).machine = s.machine ∧
      s.view.Beside layout (clampConstant s.toSession k).view ∧
      Settled layout types p { s with toSession := clampConstant s.toSession k } := by
  unfold clampConstant
  split
  · rename_i hlimited
    split
    · exact ⟨rfl, View.Beside.refl layout _, hs⟩
    · rename_i value hvalue
      have hown : layout.Own k.name := by
        by_contra hown
        rw [get_eq_none (hs.limits k hk hlimited hown)] at hvalue
        cases hvalue
      have hcell : ∀ m, (s.ctx.set k.name (k.clamp value)).cell m =
          if m = k.name then { var := some (k.clamp value) } else s.ctx.cell m :=
        fun m => Frame.cell_setValue s.ctx k.name m (.number _)
      refine ⟨rfl, ⟨fun n hn => (hcell n).trans (if_neg ?_), Frame.paramStores_setValue s.ctx k.name (.number _), rfl, rfl⟩, ?_⟩
      · rintro rfl
        exact hn hown
      · refine hs.update hcell rfl rfl (fun k' _ _ hk' heq => hk' (heq ▸ hown)) ?_ (fun use i m hm hb => ?_) hs.unbound
        · intro r hr hname
          exact absurd hname (hown.2 r hr)
        · show Plain ((s.ctx.set k.name (k.clamp value)).cell m)
          rw [hcell]
          split
          · exact ⟨_, rfl⟩
          · exact hs.plain use i m hm hb
  · exact ⟨rfl, View.Beside.refl layout _, hs⟩

omit [DecidableEq β] in
theorem Settled.clamps (hs : Settled layout types p s) {ks : List (Constant D)} (hks : ks ⊆ p.constants) :
    ({ s with toSession := ks.foldl clampConstant s.toSession } : Running D χ β).machine = s.machine ∧
      s.view.Beside layout (ks.foldl clampConstant s.toSession).view ∧
      Settled layout types p { s with toSession := ks.foldl clampConstant s.toSession } := by
  induction ks generalizing s with
  | nil => exact ⟨rfl, View.Beside.refl layout _, hs⟩
  | cons k ks ih =>
    obtain ⟨hmachine, hbeside, hsettled⟩ := hs.clamp (hks List.mem_cons_self)
    obtain ⟨hmachine', hbeside', hsettled'⟩ := ih hsettled fun y hy => hks (List.mem_cons_of_mem k hy)
    exact ⟨hmachine'.trans hmachine, hbeside.trans hbeside', hsettled'⟩

variable {c : Compiled D}

theorem Settled.tick (hs : Settled layout types c.toProgram s) (hfits : layout.Fits types rt c.toProgram)
    (hlayout : c.fused = some layout) (hspecs : c.historySpecs = []) :
    (c.tick rt s).1 = (s.machine.step layout (rt.execScalarFast s.view) (s.input rt)).1 ∧
      (c.tick rt s).2.machine = (s.machine.step layout (rt.execScalarFast s.view) (s.input rt)).2 ∧
      s.view.Beside layout (c.tick rt s).2.view ∧ Settled layout types c.toProgram (c.tick rt s).2 := by
  obtain ⟨hmachine, hbeside, hclamped⟩ := hs.clamps (List.Subset.refl c.constants)
  let u : Running D χ β := { s with toSession := clearCachedStructs (clampConstants c.toProgram s.toSession) }
  have hu : Settled layout types c.toProgram u :=
    ⟨hclamped.plain, hclamped.only, hclamped.unbound, hclamped.limits, fun r hr => ⟨rfl, fun _ _ _ => rfl⟩, hclamped.outputs⟩
  have hview : s.view.Beside layout u.view := hbeside
  obtain ⟨hresult, hstep, hbeside', hsettled⟩ := hu.tickFused hfits hspecs true
  have htick : c.tick rt s = Model.tickFused rt c.toProgram layout true u := by
    unfold Compiled.tick
    rw [hlayout]
  rw [step_eq hs hu hfits hview hmachine] at hresult hstep
  rw [htick]
  exact ⟨hresult, hstep, hview.trans hbeside', hsettled⟩

theorem Settled.tickFast (hs : Settled layout types c.toProgram s) (hlayout : c.fused = some layout)
    (hfits : layout.Fits types rt c.toProgram) (hspecs : c.historySpecs = []) (hhistories : s.histories = []) :
    (c.tickFast rt s).1 = (s.machine.step layout (rt.execScalarFast s.view) (s.input rt)).1 ∧
      (c.tickFast rt s).2.machine = (s.machine.step layout (rt.execScalarFast s.view) (s.input rt)).2 ∧
      s.view.Beside layout (c.tickFast rt s).2.view ∧ Settled layout types c.toProgram (c.tickFast rt s).2 := by
  have htick : c.tickFast rt s = Model.tickFused rt c.toProgram layout false s := by
    unfold Compiled.tickFast
    rw [hlayout]
    exact if_neg (by simp [hhistories])
  rw [htick]
  exact hs.tickFused hfits hspecs false

def Compiled.tickAs (rt : FusedRuntime D χ β) (c : Compiled D) (fast : Bool) (s : Running D χ β) :
    Option Error × Running D χ β :=
  if fast then c.tickFast rt s else c.tick rt s

/-- What the host sees of a run: the result of each tick and the outputs behind it. Before each tick it writes inputs, and
    parameters. -/
def Compiled.trace (rt : FusedRuntime D χ β) (c : Compiled D) :
    List (HostWrites D × Bool) → Running D χ β → List (Option Error × List (OutputState D))
  | [], _ => []
  | (w, fast) :: steps, s =>
    ((c.tickAs rt fast (s.prepare w)).1, (c.tickAs rt fast (s.prepare w)).2.outputs) ::
      Compiled.trace rt c steps (c.tickAs rt fast (s.prepare w)).2

def ordinary (steps : List (HostWrites D × Bool)) : List (HostWrites D × Bool) := steps.map fun x => (x.1, false)

structure Twin (layout : Layout) (types : String → ValueType) (p : Program D) (s t : Running D χ β) : Prop where
  left : Settled layout types p s
  right : Settled layout types p t
  beside : s.view.Beside layout t.view
  machine : t.machine = s.machine
  histories : t.histories = []

theorem Twin.tick (h : Twin layout types c.toProgram s t) (hlayout : c.fused = some layout)
    (hfits : layout.Fits types rt c.toProgram) (hspecs : c.historySpecs = []) (fast : Bool) :
    (c.tickAs rt fast t).1 = (c.tick rt s).1 ∧ Twin layout types c.toProgram (c.tick rt s).2 (c.tickAs rt fast t).2 := by
  obtain ⟨hresult, hstep, hbeside, hsettled⟩ := h.left.tick hfits hlayout hspecs
  have hright : (c.tickAs rt fast t).1 = (t.machine.step layout (rt.execScalarFast t.view) (t.input rt)).1 ∧
      (c.tickAs rt fast t).2.machine = (t.machine.step layout (rt.execScalarFast t.view) (t.input rt)).2 ∧
      t.view.Beside layout (c.tickAs rt fast t).2.view ∧ Settled layout types c.toProgram (c.tickAs rt fast t).2 := by
    unfold Compiled.tickAs
    cases fast with
    | true => exact h.right.tickFast hlayout hfits hspecs h.histories
    | false => exact h.right.tick hfits hlayout hspecs
  obtain ⟨hresult', hstep', hbeside', hsettled'⟩ := hright
  rw [step_eq h.left h.right hfits h.beside h.machine] at hresult' hstep'
  refine ⟨hresult'.trans hresult.symm, hsettled, hsettled', ?_, hstep'.trans hstep.symm, ?_⟩
  · exact (hbeside.symm.trans h.beside).trans hbeside'
  · exact hbeside'.histories.trans h.histories

theorem Twin.trace (h : Twin layout types c.toProgram s t) (hlayout : c.fused = some layout)
    (hfits : layout.Fits types rt c.toProgram) (hspecs : c.historySpecs = []) {steps : List (HostWrites D × Bool)}
    (hsteps : ∀ x ∈ steps, x.1.Suits layout types c.toProgram) :
    c.trace rt steps t = c.trace rt (ordinary steps) s := by
  induction steps generalizing s t with
  | nil => rfl
  | cons x steps ih =>
    obtain ⟨w, fast⟩ := x
    have hw := hsteps (w, fast) List.mem_cons_self
    have hprepared : Twin layout types c.toProgram (s.prepare w) (t.prepare w) :=
      ⟨h.left.prepare hfits.toCompiles hw, h.right.prepare hfits.toCompiles hw, h.beside.prepare w, h.machine, h.histories⟩
    obtain ⟨hresult, htwin⟩ := hprepared.tick hlayout hfits hspecs fast
    have houtputs : (c.tickAs rt fast (t.prepare w)).2.outputs = (c.tick rt (s.prepare w)).2.outputs :=
      congrArg SlotMachine.outputs htwin.machine
    show (_, _) :: _ = (_, _) :: _
    rw [hresult, houtputs, ih htwin fun y hy => hsteps y (List.mem_cons_of_mem _ hy)]
    rfl

omit [DecidableEq β] [Double D] in
theorem histories_foldl {α : Type} {step : Running D χ β → α → Running D χ β} (xs : List α)
    (hstep : ∀ s x, (step s x).histories = s.histories) (s : Running D χ β) : (xs.foldl step s).histories = s.histories := by
  induction xs generalizing s with
  | nil => rfl
  | cons x xs ih => rw [List.foldl_cons, ih, hstep]

omit [Double D] in
theorem histories_write (use : SlotUse) (i : Nat) (n : String) (d : D) (s : Running D χ β) :
    (s.write rt use i n d).histories = s.histories := by
  unfold Running.write
  split <;> rfl

omit [Double D] in
theorem histories_commit (rt : FusedRuntime D χ β) (layout : Layout) (materialize : Bool) (s : Running D χ β)
    (x : StateCommit × Nat) : (commitFused rt layout materialize s x).histories = s.histories := by
  unfold commitFused
  split
  · rfl
  · cases materialize with
    | false => rfl
    | true => exact histories_write .commit x.2 _ _ _

theorem histories_export (rt : FusedRuntime D χ β) (s : Running D χ β) (x : SlotRef × Nat) :
    (exportFused rt s x).histories = s.histories := by
  unfold exportFused
  split
  · rfl
  · exact histories_write .export_ x.2 _ _ s

omit [DecidableEq β] in
theorem histories_refresh (s : Running D χ β) : (refreshOutputsFused p layout s).histories = s.histories := by
  unfold refreshOutputsFused
  split <;> rfl

omit [DecidableEq β] [Double D] in
theorem length_captureHistory (rt : Runtime D χ) (specs : List (HistorySpec D)) (s : Session D χ) :
    (captureHistory rt specs s).2.histories.length = s.histories.length := by
  have hpush : ∀ (n : String) (v : Value D) (es : List (HistoryEntry D)), (historyPush n v es).length = es.length :=
    fun n v es => List.length_replaceF
  induction specs generalizing s with
  | nil => rfl
  | cons spec specs ih =>
    unfold captureHistory
    split
    · rw [ih]
      exact hpush _ _ _
    · exact ih s
    · rename_i target _ _
      rcases rt.evalAst target s.view s.effects with ⟨_ | v, eff⟩
      · rfl
      · rw [ih]
        exact hpush _ _ _

def captured (u : Running D χ β) (r : Option Error × Session D χ) : Option Error × Running D χ β :=
  match r with
  | (some _, t) => (some ⟨.outOfMemory, "Out of memory"⟩, { u with toSession := t })
  | (none, t) => (none, { u with toSession := t })

theorem length_histories_finish (s : Running D χ β) (materialize : Bool) :
    (finishFused rt p layout materialize s).2.histories.length = s.histories.length := by
  cases materialize with
  | false => exact congrArg List.length (histories_refresh (stageFused layout s))
  | true =>
    let u := refreshOutputsFused p layout (layout.exports.zipIdx.foldl (exportFused rt) (stageFused layout s))
    have hu : u.histories = s.histories :=
      (histories_refresh _).trans (histories_foldl layout.exports.zipIdx (histories_export rt) (stageFused layout s))
    have hcapture := length_captureHistory rt.toRuntime p.historySpecs u.toSession
    have hfinish : finishFused rt p layout true s =
        captured u (captureHistory rt.toRuntime p.historySpecs u.toSession) := rfl
    rw [hfinish, ← hu, ← hcapture]
    rcases captureHistory rt.toRuntime p.historySpecs u.toSession with ⟨_ | err, t⟩
    · rfl
    · rfl

theorem length_histories_tickFused (materialize : Bool) (s : Running D χ β) :
    (tickFused rt p layout materialize s).2.histories.length = s.histories.length := by
  have hcommits := histories_foldl layout.commits.zipIdx (histories_commit rt layout materialize) s
  have hread := congrArg Session.histories (readInputs_session rt layout.inputs.zipIdx
    (layout.commits.zipIdx.foldl (commitFused rt layout materialize) s))
  rcases hreads : readInputs rt layout.inputs.zipIdx
    (layout.commits.zipIdx.foldl (commitFused rt layout materialize) s) with ⟨_ | err, u⟩
  · rw [hreads] at hread
    rw [tickFused_read hreads, ← hcommits, ← hread]
    rcases rt.execScalarFast u.view u.slots with ⟨_ | err, slots⟩
    · exact length_histories_finish { u with slots := slots } materialize
    · rfl
  · rw [hreads] at hread
    rw [tickFused_missing hreads, ← hcommits, ← hread]

theorem length_histories_tick (hlayout : c.fused = some layout) (s : Running D χ β) :
    (c.tick rt s).2.histories.length = s.histories.length := by
  obtain ⟨ctx, hclamp, -⟩ := clampConstants_eq c.constants s.toSession
  have hstart : (clearCachedStructs (clampConstants c.toProgram s.toSession)).histories = s.histories := by
    unfold clampConstants
    rw [hclamp]
    rfl
  unfold Compiled.tick
  rw [hlayout]
  exact (length_histories_tickFused true _).trans (congrArg List.length hstart)

theorem trace_eq_ordinary {P : Running D χ β → Prop} (hfast : ∀ s, P s → c.tickFast rt s = c.tick rt s)
    (hprepare : ∀ s w, P s → P (s.prepare w)) (htick : ∀ s, P s → P (c.tick rt s).2)
    (steps : List (HostWrites D × Bool)) (hs : P s) : c.trace rt steps s = c.trace rt (ordinary steps) s := by
  induction steps generalizing s with
  | nil => rfl
  | cons x steps ih =>
    obtain ⟨w, fast⟩ := x
    have hprepared := hprepare s w hs
    have hsame : c.tickAs rt fast (s.prepare w) = c.tick rt (s.prepare w) := by
      cases fast with
      | true => exact hfast _ hprepared
      | false => rfl
    show (_, _) :: _ = (_, _) :: _
    rw [hsame, ih (htick _ hprepared)]
    rfl

omit [DecidableEq β] [Double D] in
theorem seedConstants_outputs {rt : Runtime D χ} {ks : List (Constant D)} {s t : Session D χ}
    (h : seedConstants rt ks s = .ok t) : t.histories = s.histories ∧ t.outputs = s.outputs := by
  induction ks generalizing s with
  | nil =>
    cases h
    exact ⟨rfl, rfl⟩
  | cons k ks ih =>
    unfold seedConstants at h
    rcases heval : rt.evalAst k.ast s.view s.effects with ⟨_ | v, eff⟩
    · rw [heval] at h
      cases h
    · rw [heval] at h
      obtain ⟨hhistories, houtputs⟩ := ih h
      exact ⟨hhistories, houtputs⟩

omit [DecidableEq β] [Double D] in
theorem seedStates_outputs {rt : Runtime D χ} {sts : List (StateDefault D)} {s t : Session D χ}
    {defaults : List (String × Value D)} (h : seedStates rt sts s = .ok (t, defaults)) :
    t.histories = s.histories ∧ t.outputs = s.outputs := by
  induction sts generalizing s defaults with
  | nil =>
    cases h
    exact ⟨rfl, rfl⟩
  | cons st sts ih =>
    rcases seedStates_cons h with ⟨-, htail⟩ | ⟨ast, v, eff, defaults', -, -, htail⟩
    · exact ih htail
    · obtain ⟨hhistories, houtputs⟩ := ih htail
      exact ⟨hhistories, houtputs⟩

variable {s₀ : Running D χ β} {children : χ}

omit [DecidableEq β] in
theorem new_outputs (hnew : c.sessionNew rt children = .ok s₀) :
    s₀.histories.length = c.historySpecs.length ∧ s₀.outputs.length = c.outputs.length := by
  obtain ⟨⟨s, defaults⟩, hseeded, hs⟩ := bind_eq_ok.mp hnew
  cases hs
  obtain ⟨s₁, hconstants, hstates⟩ := bind_eq_ok.mp hseeded
  obtain ⟨hhistories, houtputs⟩ := seedConstants_outputs hconstants
  obtain ⟨hhistories', houtputs'⟩ := seedStates_outputs hstates
  refine ⟨?_, ?_⟩
  · show s.histories.length = _
    rw [hhistories', hhistories]
    exact List.length_map _
  · show s.outputs.length = _
    rw [houtputs', houtputs]
    exact List.length_map _

omit [DecidableEq β] in
theorem new_cell (hnew : c.sessionNew rt children = .ok s₀) (hn : ∀ st ∈ c.stateDefaults, st.name ≠ n) :
    ∃ struct, s₀.ctx.cell n = { struct := struct } := by
  obtain ⟨⟨s, defaults⟩, hseeded, hs⟩ := bind_eq_ok.mp hnew
  cases hs
  obtain ⟨s₁, hconstants, hstates⟩ := bind_eq_ok.mp hseeded
  obtain ⟨-, -, hcells⟩ := seedConstants_keeps hconstants
  obtain ⟨-, -, hcells'⟩ := seedStates_keeps hstates
  obtain ⟨struct, hstruct⟩ := hcells n
  refine ⟨struct, ?_⟩
  show s.ctx.cell n = _
  rw [hcells' n fun st hst _ heq => hn st hst heq.symm, hstruct, cell_blank fun st hst _ => hn st hst]

/-- Nothing in a new session stands in the way of its inputs: the defaults have cached no struct under their names, and no
    parameter of their names has a struct. -/
structure Unseeded (layout : Layout) (s : Running D χ β) : Prop where
  struct : ∀ r ∈ layout.inputs, (s.ctx.cell r.name).struct = none
  cached : ∀ r ∈ layout.inputs, s.effects.cached r.name = none ∧
    ∀ root field, r.name.splitOn "." = [root, field] → s.effects.cached root = none

omit [DecidableEq β] in
theorem settled_new (hnew : c.sessionNew rt children = .ok s₀) (hfits : layout.Fits types rt c.toProgram)
    (h : Unseeded layout s₀) : Settled layout types c.toProgram s₀ := by
  have hbound : ∀ use i, s₀.bound use i = none := by
    obtain ⟨⟨s, defaults⟩, -, hs⟩ := bind_eq_ok.mp hnew
    cases hs
    exact fun _ _ => rfl
  refine ⟨fun use i m _ hb => absurd (hbound use i) hb, fun r hr => ?_, fun i r _ _ => hbound .export_ i,
    fun k hk hlimited hown => ?_, h.cached, (new_outputs hnew).2.trans hfits.outputs.symm⟩
  · obtain ⟨struct, hcell⟩ := new_cell hnew (hfits.input_state r hr)
    have hstruct := h.struct r hr
    rw [hcell] at hstruct
    cases hstruct
    exact Or.inl hcell
  · have hstate : ∀ st ∈ c.stateDefaults, st.name ≠ k.name := by
      intro st hst hname
      refine hown ⟨hname ▸ hfits.state_slots st hst, fun r hr heq => ?_⟩
      exact hfits.input_state r hr st hst (hname.trans heq.symm)
    obtain ⟨struct, hcell⟩ := new_cell hnew hstate
    rw [hcell]
    exact ⟨rfl, rfl⟩

/-- When fast ticks of a model are ordinary ones to the host: it has no fused code or has histories, or its layout, its new
    session and every write of the host are as above. -/
def Unhurried (rt : FusedRuntime D χ β) (c : Compiled D) (types : String → ValueType) (s₀ : Running D χ β)
    (steps : List (HostWrites D × Bool)) : Prop :=
  ∀ layout, c.fused = some layout → c.historySpecs = [] →
    layout.Fits types rt c.toProgram ∧ Unseeded layout s₀ ∧ ∀ x ∈ steps, x.1.Suits layout types c.toProgram

end

/-- Fast ticks in place of any ordinary ones leave every result and every output as it is. -/
theorem tickFast_refines [DecidableEq β] [Double D] (rt : FusedRuntime D χ β) (c : Compiled D) (children : χ)
    (s₀ : Running D χ β) (types : String → ValueType) (steps : List (HostWrites D × Bool))
    (hnew : c.sessionNew rt children = .ok s₀) (h : Unhurried rt c types s₀ steps) :
    c.trace rt steps s₀ = c.trace rt (ordinary steps) s₀ := by
  obtain ⟨hhistories, -⟩ := new_outputs hnew
  cases hlayout : c.fused with
  | none =>
    refine trace_eq_ordinary (P := fun _ => True) (fun s _ => ?_) (fun _ _ _ => trivial) (fun _ _ => trivial) steps trivial
    unfold Compiled.tickFast
    rw [hlayout]
  | some layout =>
    by_cases hspecs : c.historySpecs = []
    · obtain ⟨hfits, hunseeded, hsteps⟩ := h layout hlayout hspecs
      have hsettled := settled_new hnew hfits hunseeded
      have htwin : Twin layout types c.toProgram s₀ s₀ := by
        refine ⟨hsettled, hsettled, View.Beside.refl layout _, rfl, List.length_eq_zero_iff.mp ?_⟩
        rw [hhistories, hspecs]
        rfl
      exact htwin.trace hlayout hfits hspecs hsteps
    · refine trace_eq_ordinary (P := fun s => 0 < s.histories.length) (fun s hs => ?_) (fun _ _ hs => hs) (fun s hs => ?_)
        steps ?_
      · unfold Compiled.tickFast
        rw [hlayout]
        exact if_pos hs
      · rw [length_histories_tick hlayout]
        exact hs
      · rw [hhistories]
        exact List.length_pos_iff.mpr hspecs

def tallyLayout : Layout where
  slotNames := ["x", "s", "y", "__state_update_s"]
  inputs := [⟨"x", 0, .number⟩]
  commits := [⟨1, 3⟩]
  exports := [⟨"y", 2, .number⟩]
  outputs := [⟨"y", 2, .number⟩]

/-- `$k = 5` with `max = 9`, `input x`, `state s = 0`, `y = s + x` and `s := y`. -/
def tally : Compiled Int where
  constants := [⟨"k", .number 5, none, some 9⟩]
  stateDefaults := [⟨"s", .number, .inl (.number 0)⟩]
  bindings := [⟨"y", .expr, .number, false, .binary .plus (.identifier "s") (.identifier "x")⟩,
    ⟨"s", .stateUpdate, .number, false, .identifier "y"⟩]
  inputs := ["x"]
  outputs := ["y"]
  historySpecs := []
  binding_names := by decide
  state_names := nodup_s
  input_free := by simp
  update_known := by simp
  expr_free := by simp
  fused := some tallyLayout
  fused_inputs := by
    rintro _ ⟨⟩
    rfl
  fused_commits := by
    rintro _ ⟨⟩
    simp [tallyLayout, Layout.stateName]
  fused_exports := by
    rintro _ ⟨⟩
    simp [tallyLayout]

/-- Its code: the sum goes to the slot of `y` and from there to that of the update. -/
def tallyRuntime : FusedRuntime Int Unit Unit :=
  { plainRuntime {} ["x", "s", "y", "k"] with
    execScalarFast := fun _ slots => (none, Function.update (Function.update slots 2 (slots 1 + slots 0)) 3 (slots 1 + slots 0)) }

theorem tally_fits : tallyLayout.Fits (fun _ => .number) tallyRuntime tally.toProgram where
  input_slots := by decide
  input_state := by decide
  state_slots := by decide
  commit_state := by decide
  export_slots := by decide
  export_names := by decide
  export_state := by decide
  export_slot := by decide
  outputs := rfl
  kept := fun view slots r hr => by
    obtain rfl := List.mem_singleton.mp hr
    rfl
  limits := by decide
  roots := fun r hr root field hsplit => by
    obtain rfl := List.mem_singleton.mp hr
    rw [splitOn_x] at hsplit
    cases hsplit
  export_undotted := fun r hr r' hr' hname => by
    obtain rfl := List.mem_singleton.mp hr
    obtain rfl := List.mem_singleton.mp hr'
    exact absurd hname (by decide)
  export_type := by decide
  insulated := fun _ _ _ _ => rfl

def tallySteps : List (HostWrites Int × Bool) :=
  [(⟨[("x", .number 2)], []⟩, true), (⟨[("x", .number 3)], [("k", .number 40)]⟩, false)]

theorem tally_suits : ∀ x ∈ tallySteps, x.1.Suits tallyLayout (fun _ => .number) tally.toProgram := by
  have hforeign : ¬ tallyLayout.Own "x" := fun ⟨_, hinput⟩ => hinput ⟨"x", 0, .number⟩ List.mem_cons_self rfl
  refine List.forall_mem_cons.mpr ⟨⟨by decide, ?_, by decide, nofun⟩,
    List.forall_mem_singleton.mpr ⟨by decide, ?_, by decide, List.forall_mem_singleton.mpr nofun⟩⟩
  · exact List.forall_mem_singleton.mpr hforeign
  · exact List.forall_mem_singleton.mpr hforeign

theorem tally_fast : ∃ s₀, tally.sessionNew tallyRuntime () = .ok s₀ ∧
    Unhurried tallyRuntime tally (fun _ => .number) s₀ tallySteps ∧
    tally.trace tallyRuntime tallySteps s₀ = tally.trace tallyRuntime (ordinary tallySteps) s₀ := by
  obtain ⟨s₀, hnew, hcell, hcached⟩ : ∃ s₀, tally.sessionNew tallyRuntime () = .ok s₀ ∧
      (s₀.ctx.cell "x").struct = none ∧ ∀ n, s₀.effects.cached n = none := ⟨_, rfl, rfl, fun _ => rfl⟩
  have h : Unhurried tallyRuntime tally (fun _ => .number) s₀ tallySteps := by
    rintro _ ⟨⟩ -
    refine ⟨tally_fits, ⟨fun r hr => ?_, fun r _ => ⟨hcached _, fun _ _ _ => hcached _⟩⟩, tally_suits⟩
    obtain rfl := List.mem_singleton.mp hr
    exact hcell
  exact ⟨s₀, hnew, h, tickFast_refines tallyRuntime tally () s₀ (fun _ => .number) tallySteps hnew h⟩

/-- `$x = 5` with `max = 9`, `input x` and `y = x`. -/
def capped : Compiled Int where
  constants := [⟨"x", .number 5, none, some 9⟩]
  stateDefaults := []
  bindings := [⟨"y", .expr, .number, false, .identifier "x"⟩]
  inputs := ["x"]
  outputs := ["y"]
  historySpecs := []
  binding_names := by decide
  state_names := by decide
  input_free := by simp
  update_known := by simp
  expr_free := by simp
  fused := some ⟨["x", "y"], [⟨"x", 0, .number⟩], [], [⟨"y", 1, .number⟩], [⟨"y", 1, .number⟩]⟩
  fused_inputs := by
    rintro _ ⟨⟩
    rfl
  fused_commits := by
    rintro _ ⟨⟩
    simp
  fused_exports := by
    rintro _ ⟨⟩
    simp

def cappedRuntime : FusedRuntime Int Unit Unit :=
  { plainRuntime {} ["x", "y"] with execScalarFast := fun _ slots => (none, Function.update slots 1 (slots 0)) }

/-- The host sets the input to 40: an ordinary tick clamps it to 9, a fast one does not. -/
theorem capped_fast : ∃ s₀, capped.sessionNew cappedRuntime () = .ok s₀ ∧
    (capped.trace cappedRuntime [(⟨[("x", .number 40)], []⟩, true)] s₀).map (fun r => (r.1, r.2.map (·.numberCurrent))) =
      [(none, [40])] ∧
    (capped.trace cappedRuntime (ordinary [(⟨[("x", .number 40)], []⟩, true)]) s₀).map
      (fun r => (r.1, r.2.map (·.numberCurrent))) = [(none, [9])] ∧
    capped.trace cappedRuntime [(⟨[("x", .number 40)], []⟩, true)] s₀ ≠
      capped.trace cappedRuntime (ordinary [(⟨[("x", .number 40)], []⟩, true)]) s₀ := by
  obtain ⟨s₀, hnew, hfast, hplain⟩ : ∃ s₀, capped.sessionNew cappedRuntime () = .ok s₀ ∧
      (capped.trace cappedRuntime [(⟨[("x", .number 40)], []⟩, true)] s₀).map (fun r => (r.1, r.2.map (·.numberCurrent))) =
        [(none, [40])] ∧
      (capped.trace cappedRuntime (ordinary [(⟨[("x", .number 40)], []⟩, true)]) s₀).map
        (fun r => (r.1, r.2.map (·.numberCurrent))) = [(none, [9])] := ⟨_, rfl, rfl, rfl⟩
  refine ⟨s₀, hnew, hfast, hplain, fun heq => ?_⟩
  rw [heq, hplain] at hfast
  simp at hfast

end Cxpr.Model
