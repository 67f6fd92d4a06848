import Cxpr.Model.FastTick

/-! The outputs of a session (`src/model/session/output.c`): their values, and whether they rise, fall or change from one
    tick to the next. -/

namespace Cxpr.Model
variable {D χ β : Type}

/-- `cxpr_model_session_find_output`: what a list has for the output of a name. -/
def findOutput {α : Type} (p : Program D) (name : String) (xs : List α) : Option α :=
  (p.outputs.findIdx? (· == name)).bind (xs[·]?)

def getBool (p : Program D) (s : Session D χ) (name : String) : Option Bool :=
  (findOutput p name s.outputs).bind fun o => if o.hasCurrent then some o.current else none

def getNumber (p : Program D) (s : Session D χ) (name : String) : Option D :=
  (findOutput p name s.outputs).bind fun o => if o.hasNumberCurrent then some o.numberCurrent else none

def getInt64 (p : Program D) (s : Session D χ) (name : String) : Option Int64 :=
  (findOutput p name s.outputs).bind fun o => if o.hasInt64Current then some o.int64Current else none

def isRising (p : Program D) (s : Session D χ) (name : String) : Bool :=
  (findOutput p name s.outputs).any fun o => o.hasCurrent && o.current && (!o.hasPrevious || !o.previous)

def isFalling (p : Program D) (s : Session D χ) (name : String) : Bool :=
  (findOutput p name s.outputs).any fun o => o.hasCurrent && !o.current && o.hasPrevious && o.previous

def isChanged (p : Program D) (s : Session D χ) (name : String) : Bool :=
  (findOutput p name s.outputs).any fun o => o.hasCurrent && (!o.hasPrevious || o.current != o.previous)

/-- The value an output has after a tick, and whether it is looked up in the context; a struct cached for the tick is no
    value of an output. -/
structure Shown (D : Type) where
  value : Option (Value D)
  lookedUp : Bool

def number? : Value D → Option D
  | .number d => some d
  | _ => none

/-- The `int64` that a value is. -/
def int64? : Value D → Option Int64
  | .int64 i => some i
  | _ => none

def Session.shown (s : Session D χ) (name : String) : Shown D :=
  match stagedScalar name s.pending with
  | some v => ⟨some v, false⟩
  | none => ⟨(s.ctx.cell name).read, true⟩

section
variable [Double D]

/-- The truth value of a value, which only numbers, bools and `int64`s have. -/
def truth : Value D → Option Bool
  | .number d => some (Double.ne d Double.zero)
  | .bool b => some b
  | .int64 i => some (i ≠ 0)
  | _ => none

def fusedShown (layout : Layout) (s : Running D χ β) (r : SlotRef) : Shown D :=
  if r.resultKind = .bool then ⟨some (.bool (Double.ne (fusedValue layout s r.slot) Double.zero)), false⟩
  else ⟨some (.number (fusedValue layout s r.slot)), false⟩

def Compiled.shown (c : Compiled D) (s : Running D χ β) : List (Shown D) :=
  match c.fused with
  | none => c.outputs.map s.toSession.shown
  | some layout =>
    if layout.outputs.length = c.outputs.length then layout.outputs.map (fusedShown layout s)
    else c.outputs.map s.toSession.shown

def Compiled.shownAs (c : Compiled D) (name : String) (s : Running D χ β) : Shown D :=
  (findOutput c.toProgram name (c.shown s)).getD ⟨none, true⟩

def OutputState.note (o : OutputState D) (x : Shown D) : OutputState D :=
  match x.value with
  | some (.int64 i) => o.setInt64 i
  | some (.number d) => o.setNumber d
  | some (.bool b) => if x.lookedUp then o.setFound (some (Double.ofBool b)) else o.setBool b
  | _ => o.setFound none

/-! ### A tick refreshes the outputs with what they show -/

variable {name : String} {c : Compiled D} {s : Session D χ} {p : Program D} {o : OutputState D}
variable {rt : FusedRuntime D χ β} {s₀ : Running D χ β}

omit [Double D] in
theorem stagedScalar_type {pending : List (Binding D × Value D)} {v : Value D}
    (h : stagedScalar name pending = some v) : v.type = .number ∨ v.type = .bool ∨ v.type = .int64 := by
  obtain ⟨x, hx, rfl⟩ := Option.map_eq_some_iff.mp h
  have hfound := List.find?_some hx
  simp only [Bool.and_eq_true, Bool.or_eq_true, beq_iff_eq] at hfound
  tauto

theorem refreshOutput_eq (s : Session D χ) (name : String) (o : OutputState D) :
    refreshOutput s name o = o.note (s.shown name) := by
  unfold refreshOutput Session.shown OutputState.note
  cases hstaged : stagedScalar name s.pending with
  | some v =>
    have htype := stagedScalar_type hstaged
    cases v <;> simp [Value.type] at htype ⊢
  | none =>
    unfold Session.get Session.getTyped
    cases hread : (s.ctx.cell name).read with
    | none => cases s.effects.cached name <;> simp
    | some v => cases v <;> rfl

theorem fusedOutput_eq (layout : Layout) (s : Running D χ β) (r : SlotRef) (o : OutputState D) :
    fusedOutput layout s r o = o.note (fusedShown layout s r) := by
  unfold fusedOutput fusedShown
  split <;> rfl

theorem refreshOutputs_eq (p : Program D) (s : Session D χ) :
    (refreshOutputs p s).outputs = List.zipWith (fun x o => o.note x) (p.outputs.map s.shown) s.outputs := by
  rw [List.zipWith_map_left]
  exact congrArg (List.zipWith · p.outputs s.outputs) (funext fun n => funext (refreshOutput_eq s n))

theorem refreshOutputsFused_eq {layout : Layout} (hlayout : c.fused = some layout)
    {s : Running D χ β} (hlength : s.outputs.length = c.outputs.length) :
    (refreshOutputsFused c.toProgram layout s).outputs = List.zipWith (fun x o => o.note x) (c.shown s) s.outputs := by
  unfold refreshOutputsFused Compiled.shown
  rw [hlayout, hlength]
  dsimp only
  split
  · rw [List.zipWith_map_left]
    exact congrArg (List.zipWith · layout.outputs s.outputs) (funext fun r => funext (fusedOutput_eq layout s r))
  · exact refreshOutputs_eq c.toProgram s.toSession

omit [Double D] in
theorem outputs_evalBindings (rt : Runtime D χ) (bs : List (Binding D)) (s : Session D χ) :
    (evalBindings rt bs s).2.outputs = s.outputs := by
  induction bs generalizing s with
  | nil => rfl
  | cons b bs ih =>
    unfold evalBindings
    rcases rt.eval b.resultKind b.ast s.view s.effects with ⟨_ | v, eff⟩
    · rfl
    · exact (ih _).trans (assign_frame b v { s with effects := eff }).1

theorem outputs_clamp (p : Program D) (s : Session D χ) : (clampConstants p s).outputs = s.outputs := by
  obtain ⟨ctx, hclamp, -⟩ := clampConstants_eq p.constants s
  unfold clampConstants
  rw [hclamp]

theorem outputs_ready (rt : Runtime D χ) (p : Program D) (s : Session D χ) : (ready rt p s).outputs = s.outputs := by
  unfold ready commitPending
  rw [← outputs_clamp p s]
  exact (commit_frame rt _ _).2.1

omit [Double D] in
theorem shown_congr {t : Session D χ} (hctx : t.ctx = s.ctx) (hpending : t.pending = s.pending) :
    t.shown = s.shown := by
  funext name
  unfold Session.shown
  rw [hctx, hpending]

theorem Compiled.shown_congr {s t : Running D χ β} (hctx : t.ctx = s.ctx)
    (hpending : t.pending = s.pending) (hslots : t.slots = s.slots) (hstaged : t.staged = s.staged) :
    c.shown t = c.shown s := by
  have hsession := Model.shown_congr hctx hpending
  have hfused : ∀ layout, fusedShown layout t = fusedShown layout s := by
    intro layout
    funext r
    unfold fusedShown fusedValue
    rw [hslots, hstaged]
  unfold Compiled.shown
  simp only [hsession, hfused]

theorem outputs_tick {rt : Runtime D χ} {t : Session D χ} (h : tick rt p s = (none, t)) :
    t.outputs = List.zipWith (fun x o => o.note x) (p.outputs.map t.shown) s.outputs := by
  have hkept := outputs_evalBindings rt p.bindings (ready rt p s)
  rw [tick_eq] at h
  rcases hevals : evalBindings rt p.bindings (ready rt p s) with ⟨_ | err, u⟩
  · rw [hevals] at h hkept
    rw [proceed_none] at h
    obtain ⟨hctx, -, hpending, houtputs⟩ := captureHistory_keeps rt p.historySpecs (refreshOutputs p u)
    unfold finish at h
    rcases hcapture : captureHistory rt p.historySpecs (refreshOutputs p u) with ⟨_ | err, v⟩
    · rw [hcapture] at h hctx hpending houtputs
      cases h
      rw [houtputs, refreshOutputs_eq, shown_congr hctx hpending, hkept.trans (outputs_ready rt p s)]
      rfl
    · rw [hcapture] at h
      cases h
  · rw [hevals] at h
    cases h

section
variable [DecidableEq β]

omit [DecidableEq β] [Double D] in
theorem outputs_foldl {α : Type} {step : Running D χ β → α → Running D χ β} (xs : List α)
    (hstep : ∀ s x, (step s x).outputs = s.outputs) (s : Running D χ β) : (xs.foldl step s).outputs = s.outputs := by
  induction xs generalizing s with
  | nil => rfl
  | cons x xs ih => rw [List.foldl_cons, ih, hstep]

omit [Double D] in
theorem outputs_write (rt : FusedRuntime D χ β) (use : SlotUse) (i : Nat) (n : String) (d : D) (s : Running D χ β) :
    (s.write rt use i n d).outputs = s.outputs := by
  unfold Running.write
  split <;> rfl

omit [Double D] in
theorem outputs_commit (rt : FusedRuntime D χ β) (layout : Layout) (materialize : Bool) (s : Running D χ β)
    (x : StateCommit × Nat) : (commitFused rt layout materialize s x).outputs = s.outputs := by
  unfold commitFused
  split
  · rfl
  · cases materialize with
    | false => rfl
    | true => exact outputs_write rt .commit x.2 _ _ _

theorem outputs_export (rt : FusedRuntime D χ β) (s : Running D χ β) (x : SlotRef × Nat) :
    (exportFused rt s x).outputs = s.outputs := by
  unfold exportFused
  split
  · rfl
  · exact outputs_write rt .export_ x.2 _ _ s

theorem outputs_runFused (rt : FusedRuntime D χ β) (layout : Layout) (materialize : Bool) (s : Running D χ β) :
    (runFused rt layout materialize s).2.outputs = s.outputs := by
  have hcommits := outputs_foldl layout.commits.zipIdx (outputs_commit rt layout materialize) s
  have hread := congrArg Session.outputs (readInputs_session rt layout.inputs.zipIdx
    (layout.commits.zipIdx.foldl (commitFused rt layout materialize) s))
  unfold runFused
  generalize readInputs rt layout.inputs.zipIdx _ = result at hread ⊢
  obtain ⟨_ | err, u⟩ := result <;> exact hread.trans hcommits

omit [DecidableEq β] in
theorem Compiled.length_shown (c : Compiled D) (s : Running D χ β) : (c.shown s).length = c.outputs.length := by
  unfold Compiled.shown
  split
  · exact List.length_map _
  · split
    · rename_i hsame
      rw [List.length_map, hsame]
    · exact List.length_map _

variable {c : Compiled D} {s : Running D χ β}

omit [DecidableEq β] in
theorem refreshOutputsFused_shown {layout : Layout} (hlayout : c.fused = some layout) (hlength : s.outputs.length = c.outputs.length) :
    (refreshOutputsFused c.toProgram layout s).outputs =
      List.zipWith (fun x o => o.note x) (c.shown (refreshOutputsFused c.toProgram layout s)) s.outputs := by
  have hshown : c.shown (refreshOutputsFused c.toProgram layout s) = c.shown s := by
    refine Compiled.shown_congr ?_ ?_ ?_ ?_ <;>
    · unfold refreshOutputsFused
      split <;> rfl
  rw [hshown, refreshOutputsFused_eq hlayout hlength]

theorem outputs_tickFused {rt : FusedRuntime D χ β} {layout : Layout} (hlayout : c.fused = some layout)
    {materialize : Bool} {t : Running D χ β} (hlength : s.outputs.length = c.outputs.length)
    (h : tickFused rt c.toProgram layout materialize s = (none, t)) :
    t.outputs = List.zipWith (fun x o => o.note x) (c.shown t) s.outputs := by
  have hkept := outputs_runFused rt layout materialize s
  have hproceed : tickFused rt c.toProgram layout materialize s =
      proceed (runFused rt layout materialize s) (finishFused rt c.toProgram layout materialize) := by
    unfold tickFused
    rcases runFused rt layout materialize s with ⟨_ | err, u⟩ <;> rfl
  rw [hproceed] at h
  rcases hrun : runFused rt layout materialize s with ⟨_ | err, u⟩
  · rw [hrun] at h hkept
    rw [proceed_none] at h
    cases materialize with
    | false =>
      cases h
      rw [refreshOutputsFused_shown hlayout (hkept ▸ hlength : (stageFused layout u).outputs.length = _)]
      exact congrArg (List.zipWith _ _) hkept
    | true =>
      let v := layout.exports.zipIdx.foldl (exportFused rt) (stageFused layout u)
      have hv : v.outputs = s.outputs := (outputs_foldl _ (outputs_export rt) (stageFused layout u)).trans hkept
      have hrefresh := refreshOutputsFused_shown hlayout (hv ▸ hlength : v.outputs.length = _)
      obtain ⟨hctx, -, hpending, houtputs⟩ :=
        captureHistory_keeps rt.toRuntime c.historySpecs (refreshOutputsFused c.toProgram layout v).toSession
      have hfinish : finishFused rt c.toProgram layout true u =
          captured (refreshOutputsFused c.toProgram layout v)
            (captureHistory rt.toRuntime c.historySpecs (refreshOutputsFused c.toProgram layout v).toSession) := rfl
      rw [hfinish] at h
      rcases hcapture : captureHistory rt.toRuntime c.historySpecs
        (refreshOutputsFused c.toProgram layout v).toSession with ⟨_ | err, w⟩
      · rw [hcapture] at h hctx hpending houtputs
        cases h
        have hshown : c.shown { refreshOutputsFused c.toProgram layout v with toSession := w } =
            c.shown (refreshOutputsFused c.toProgram layout v) :=
          Compiled.shown_congr hctx hpending rfl rfl
        rw [hshown, ← hv]
        exact houtputs.trans hrefresh
      · rw [hcapture] at h
        cases h
  · rw [hrun] at h
    cases h

theorem outputs_tickAs {rt : FusedRuntime D χ β} {fast : Bool} {t : Running D χ β}
    (hlength : s.outputs.length = c.outputs.length) (h : c.tickAs rt fast s = (none, t)) :
    t.outputs = List.zipWith (fun x o => o.note x) (c.shown t) s.outputs := by
  have hordinary : c.tick rt s = (none, t) → t.outputs = List.zipWith (fun x o => o.note x) (c.shown t) s.outputs := by
    intro h
    unfold Compiled.tick at h
    cases hfused : c.fused with
    | none =>
      rw [hfused] at h
      simp only [Prod.mk.injEq] at h
      obtain ⟨hresult, rfl⟩ := h
      have htick : Model.tick rt.toRuntime c.toProgram s.toSession =
          (none, (Model.tick rt.toRuntime c.toProgram s.toSession).2) := Prod.ext hresult rfl
      have hshown : c.shown { s with toSession := (Model.tick rt.toRuntime c.toProgram s.toSession).2 } =
          c.outputs.map (Model.tick rt.toRuntime c.toProgram s.toSession).2.shown := by
        unfold Compiled.shown
        rw [hfused]
      rw [hshown]
      exact outputs_tick htick
    | some layout =>
      rw [hfused] at h
      have hclamp := outputs_clamp c.toProgram s.toSession
      have hstart : (clearCachedStructs (clampConstants c.toProgram s.toSession)).outputs = s.outputs := hclamp
      have hfusedTick := outputs_tickFused hfused (by rw [hstart]; exact hlength) h
      rw [hfusedTick, hstart]
  cases fast with
  | false => exact hordinary h
  | true =>
    have h : c.tickFast rt s = (none, t) := h
    unfold Compiled.tickFast at h
    cases hfused : c.fused with
    | none =>
      rw [hfused] at h
      exact hordinary h
    | some layout =>
      rw [hfused] at h
      dsimp only at h
      split at h
      · exact hordinary h
      · exact outputs_tickFused hfused hlength h

end

/-- The number that `cxpr_model_session_get_number` returns. -/
def Shown.number (x : Shown D) : Option D :=
  match x.value with
  | some (.bool b) => if x.lookedUp then some (Double.ofBool b) else none
  | some v => number? v
  | none => none

structure Records (log : List (Shown D)) (o : OutputState D) : Prop where
  current : (if o.hasCurrent then some o.current else none) = (log.head?.bind (·.value)).bind truth
  previous : (if o.hasPrevious then some o.previous else none) = (log.tail.head?.bind (·.value)).bind truth
  number : (if o.hasNumberCurrent then some o.numberCurrent else none) = log.head?.bind Shown.number
  int64 : (if o.hasInt64Current then some o.int64Current else none) = log.findSome? fun x => x.value.bind int64?

theorem Records.new : Records [] { numberCurrent := Double.zero, numberPrevious := (Double.zero : D) } := ⟨rfl, rfl, rfl, rfl⟩

theorem previous_note (o : OutputState D) (x : Shown D) :
    (o.note x).hasPrevious = o.hasCurrent ∧ (o.note x).previous = o.current := by
  unfold OutputState.note
  split
  · exact ⟨rfl, rfl⟩
  · exact ⟨rfl, rfl⟩
  · split <;> exact ⟨rfl, rfl⟩
  · exact ⟨rfl, rfl⟩

theorem int64_note (o : OutputState D) (x : Shown D) :
    (if (o.note x).hasInt64Current then some (o.note x).int64Current else none) =
      (x.value.bind int64?).or (if o.hasInt64Current then some o.int64Current else none) := by
  obtain ⟨v?, lookedUp⟩ := x
  cases v? with
  | none => rfl
  | some v =>
    cases v with
    | bool b => cases lookedUp <;> rfl
    | _ => rfl

theorem Records.note {log : List (Shown D)} (h : Records log o) (x : Shown D) :
    Records (x :: log) (o.note x) := by
  obtain ⟨hhas, hprev⟩ := previous_note o x
  refine ⟨?_, ?_, ?_, ?_⟩
  · obtain ⟨v?, lookedUp⟩ := x
    cases v? with
    | none => rfl
    | some v =>
      cases v with
      | bool b => cases lookedUp <;> simp [OutputState.note, OutputState.setBool, OutputState.setFound, truth]
      | _ => rfl
  · rw [hhas, hprev]
    exact h.current
  · obtain ⟨v?, lookedUp⟩ := x
    cases v? with
    | none => rfl
    | some v =>
      cases v with
      | bool b => cases lookedUp <;> rfl
      | _ => rfl
  · rw [int64_note, h.int64, List.findSome?_cons]
    cases x.value.bind int64? <;> rfl

variable [DecidableEq β]

/-- A run of successful ticks from a session on: the sessions after its ticks, the last one first. Before each tick the
    host writes inputs and parameters. -/
inductive Ran (rt : FusedRuntime D χ β) (c : Compiled D) (s₀ : Running D χ β) : List (Running D χ β) → Prop where
  | start : Ran rt c s₀ []
  | tick {log : List (Running D χ β)} {t : Running D χ β} (w : HostWrites D) (fast : Bool) : Ran rt c s₀ log →
    c.tickAs rt fast ((log.headD s₀).prepare w) = (none, t) → Ran rt c s₀ (t :: log)

omit [DecidableEq β] in
theorem new_output {children : χ}
    (hnew : c.sessionNew rt children = .ok s₀) :
    s₀.outputs = c.outputs.map fun _ => { numberCurrent := Double.zero, numberPrevious := Double.zero } := by
  obtain ⟨⟨s, defaults⟩, hseeded, hs⟩ := bind_eq_ok.mp hnew
  cases hs
  obtain ⟨s₁, hconstants, hstates⟩ := bind_eq_ok.mp hseeded
  exact (seedStates_outputs hstates).2.trans (seedConstants_outputs hconstants).2

theorem findOutput_note {xs : List (Shown D)} {os : List (OutputState D)} (h : findOutput p name (List.zipWith (fun x o => o.note x) xs os) = some o) :
    ∃ x o', findOutput p name xs = some x ∧ findOutput p name os = some o' ∧ o = o'.note x := by
  obtain ⟨i, hi, hget⟩ := Option.bind_eq_some_iff.mp h
  obtain ⟨x, o', hx, ho', rfl⟩ := List.getElem?_zipWith_eq_some.mp hget
  exact ⟨x, o', Option.bind_eq_some_iff.mpr ⟨i, hi, hx⟩, Option.bind_eq_some_iff.mpr ⟨i, hi, ho'⟩, rfl⟩

theorem Ran.follows {children : χ}
    {log : List (Running D χ β)} (hnew : c.sessionNew rt children = .ok s₀) (h : Ran rt c s₀ log) :
    (log.headD s₀).outputs.length = c.outputs.length ∧ ∀ name o,
      findOutput c.toProgram name (log.headD s₀).outputs = some o → Records (log.map (c.shownAs name)) o := by
  induction h with
  | start =>
    refine ⟨(new_outputs hnew).2, fun name o ho => ?_⟩
    obtain ⟨i, -, hi⟩ := Option.bind_eq_some_iff.mp ho
    rw [List.headD_nil, new_output hnew] at hi
    obtain ⟨_, -, rfl⟩ := List.mem_map.mp (List.mem_of_getElem? hi)
    exact Records.new
  | @tick log t w fast hran htick ih =>
    obtain ⟨hlength, hfollows⟩ := ih
    have hnotes := outputs_tickAs (s := (log.headD s₀).prepare w) hlength htick
    refine ⟨?_, fun name o ho => ?_⟩
    · rw [List.headD_cons, hnotes, List.length_zipWith, c.length_shown]
      exact (congrArg (min _) hlength).trans (Nat.min_self _)
    · rw [List.headD_cons, hnotes] at ho
      obtain ⟨x, o', hx, ho', rfl⟩ := findOutput_note ho
      have hx : c.shownAs name t = x := by
        unfold Compiled.shownAs
        rw [hx]
        rfl
      rw [List.map_cons, hx]
      exact (hfollows name o' ho').note x

/-- What the queries about an output answer is what it shows after this tick and showed after the one before. -/
structure Described (p : Program D) (s : Session D χ) (name : String) (before now : Option (Value D)) : Prop where
  bool : getBool p s name = now.bind truth
  number : getNumber p s name = now.bind number?
  int64 : getInt64 p s name = now.bind int64?
  rising : isRising p s name = true ↔ now.bind truth = some true ∧ before.bind truth ≠ some true
  falling : isFalling p s name = true ↔ now.bind truth = some false ∧ before.bind truth = some true
  changed : isChanged p s name = true ↔ now.bind truth ≠ none ∧ now.bind truth ≠ before.bind truth

/-- What an output must show for its record to be right: no bool looked up in the context, and an `int64` after an
    `int64`. -/
def Uniform (before : Option (Value D)) (x : Shown D) : Prop :=
  ¬ (x.lookedUp = true ∧ ∃ b, x.value = some (.bool b)) ∧
    ((before.bind int64?).isSome → (x.value.bind int64?).isSome)

theorem Shown.number_eq_iff (x : Shown D) :
    x.number = x.value.bind number? ↔ ¬ (x.lookedUp = true ∧ ∃ b, x.value = some (.bool b)) := by
  obtain ⟨v?, lookedUp⟩ := x
  cases v? with
  | none => simp [Shown.number]
  | some v =>
    cases v with
    | bool b => cases lookedUp <;> simp [Shown.number, number?]
    | _ => simp [Shown.number]

theorem Records.described_iff {x : Shown D} {log : List (Shown D)} (h : Records (x :: log) o) (ho : findOutput p name s.outputs = some o) :
    Described p s name (log.head?.bind (·.value)) x.value ↔
      ¬ (x.lookedUp = true ∧ ∃ b, x.value = some (.bool b)) ∧
        ((x :: log).findSome? fun x => x.value.bind int64?) = x.value.bind int64? := by
  have hcurrent : (if o.hasCurrent then some o.current else none) = x.value.bind truth := h.current
  have hprevious : (if o.hasPrevious then some o.previous else none) = (log.head?.bind (·.value)).bind truth := h.previous
  have hnumber : getNumber p s name = x.number := by
    unfold getNumber
    rw [ho]
    exact h.number
  have hint64 : getInt64 p s name = (x :: log).findSome? fun x => x.value.bind int64? := by
    unfold getInt64
    rw [ho]
    exact h.int64
  rw [← Shown.number_eq_iff, ← hnumber, ← hint64]
  refine ⟨fun hd => ⟨hd.number, hd.int64⟩, fun ⟨hnum, hint⟩ => ⟨?_, hnum, hint, ?_, ?_, ?_⟩⟩
  · unfold getBool
    rw [ho]
    exact hcurrent
  · unfold isRising
    rw [ho, Option.any_some, ← hcurrent, ← hprevious]
    cases o.hasCurrent <;> cases o.current <;> cases o.hasPrevious <;> cases o.previous <;> simp
  · unfold isFalling
    rw [ho, Option.any_some, ← hcurrent, ← hprevious]
    cases o.hasCurrent <;> cases o.current <;> cases o.hasPrevious <;> cases o.previous <;> simp
  · unfold isChanged
    rw [ho, Option.any_some, ← hcurrent, ← hprevious]
    cases o.hasCurrent <;> cases o.current <;> cases o.hasPrevious <;> cases o.previous <;> simp

omit [Double D] [DecidableEq β] in
theorem findSome?_head_iff {α γ : Type} {f : α → Option γ} {log : List α} :
    (∀ x rest, (x :: rest) <:+ log → (x :: rest).findSome? f = f x) ↔
      ∀ x rest, (x :: rest) <:+ log → (rest.head?.bind f).isSome → (f x).isSome := by
  constructor
  · intro h x rest hsuffix hsome
    cases rest with
    | nil => simp at hsome
    | cons y rest =>
      have hx := h x (y :: rest) hsuffix
      rw [List.findSome?_cons, h y rest ((List.suffix_cons x _).trans hsuffix)] at hx
      cases hfx : f x with
      | some _ => rfl
      | none =>
        rw [hfx] at hx
        have hx : f y = none := hx
        have hy : (f y).isSome := hsome
        rw [hx] at hy
        exact hy
  · intro h x rest hsuffix
    induction rest generalizing x with
    | nil => cases hfx : f x <;> simp [hfx]
    | cons y rest ih =>
      rw [List.findSome?_cons, ih y ((List.suffix_cons x _).trans hsuffix)]
      cases hfx : f x with
      | some _ => rfl
      | none =>
        have hy := h x (y :: rest) hsuffix
        rw [hfx] at hy
        simpa using hy

theorem Ran.of_suffix {log rest : List (Running D χ β)}
    (h : Ran rt c s₀ log) (hsuffix : rest <:+ log) : Ran rt c s₀ rest := by
  induction h with
  | start => exact List.suffix_nil.mp hsuffix ▸ .start
  | tick w fast hran htick ih =>
    rcases List.suffix_cons_iff.mp hsuffix with rfl | hsuffix
    · exact .tick w fast hran htick
    · exact ih hsuffix

/-- Transitions of outputs. In a run of successful ticks the queries about an output answer, after every tick, what the
    output has shown after that tick and the one before, exactly when no tick shows a bool looked up in the context, and
    none something else after an `int64`. -/
theorem outputs_described {rt : FusedRuntime D χ β} {c : Compiled D} {children : χ} {s₀ : Running D χ β}
    {log : List (Running D χ β)} (hnew : c.sessionNew rt children = .ok s₀) (hran : Ran rt c s₀ log) (name : String) :
    (∀ t earlier, (t :: earlier) <:+ log → Described c.toProgram t.toSession name
      (earlier.head?.bind fun s => (c.shownAs name s).value) (c.shownAs name t).value) ↔
    ∀ t earlier, (t :: earlier) <:+ log →
      Uniform (earlier.head?.bind fun s => (c.shownAs name s).value) (c.shownAs name t) := by
  cases hindex : c.outputs.findIdx? (· == name) with
  | none =>
    have hnone : ∀ {α : Type} (xs : List α), findOutput c.toProgram name xs = none := by
      intro α xs
      unfold findOutput
      rw [hindex]
      rfl
    have hshown : ∀ s : Running D χ β, c.shownAs name s = ⟨none, true⟩ := by
      intro s
      unfold Compiled.shownAs
      rw [hnone]
      rfl
    have hbefore : ∀ earlier : List (Running D χ β), (earlier.head?.bind fun s => (c.shownAs name s).value) = none := by
      intro earlier
      simp [hshown]
    refine ⟨fun _ t earlier _ => ?_, fun _ t earlier _ => ?_⟩
    · rw [hbefore, hshown]
      simp [Uniform]
    · rw [hbefore, hshown]
      constructor <;> simp [getBool, getNumber, getInt64, isRising, isFalling, isChanged, hnone]
  | some i =>
    let f : Running D χ β → Option Int64 := fun s => (c.shownAs name s).value.bind int64?
    have hstep : ∀ t earlier, (t :: earlier) <:+ log → (Described c.toProgram t.toSession name
        (earlier.head?.bind fun s => (c.shownAs name s).value) (c.shownAs name t).value ↔
        ¬ ((c.shownAs name t).lookedUp = true ∧ ∃ b, (c.shownAs name t).value = some (.bool b)) ∧
          (t :: earlier).findSome? f = f t) := by
      intro t earlier hsuffix
      obtain ⟨hlength, hfollows⟩ := (hran.of_suffix hsuffix).follows hnew
      obtain ⟨o, ho⟩ : ∃ o, findOutput c.toProgram name t.outputs = some o := by
        have hlt : i < t.outputs.length := by
          rw [List.headD_cons] at hlength
          exact hlength ▸ (List.findIdx?_eq_some_iff_getElem.mp hindex).1
        exact ⟨t.outputs[i], Option.bind_eq_some_iff.mpr ⟨i, hindex, List.getElem?_eq_getElem hlt⟩⟩
      have hiff := (hfollows name o ho).described_iff ho
      rw [List.head?_map, Option.bind_map, ← List.map_cons, List.findSome?_map] at hiff
      exact hiff
    constructor
    · intro h t earlier hsuffix
      refine ⟨((hstep t earlier hsuffix).mp (h t earlier hsuffix)).1, ?_⟩
      rw [Option.bind_assoc]
      exact findSome?_head_iff.mp (fun t earlier hs => ((hstep t earlier hs).mp (h t earlier hs)).2) t earlier hsuffix
    · intro h t earlier hsuffix
      refine (hstep t earlier hsuffix).mpr ⟨(h t earlier hsuffix).1, ?_⟩
      refine findSome?_head_iff.mpr (fun t earlier hs => ?_) t earlier hsuffix
      have hkept := (h t earlier hs).2
      rwa [Option.bind_assoc] at hkept

theorem plainCounter_unfused (layout : Layout) (h : none = some layout) : layout.inputs.map (·.name) = ["x"] := by
  cases h

/-- `input x`, `state n: int = 0i64` and `n := n + 1i64`, with the outputs `x` and `n`. -/
def plainCounter : Compiled Int where
  constants := []
  stateDefaults := [⟨"n", .int64, .inl (.int64 0)⟩]
  bindings := [⟨"n", .stateUpdate, .int64, false, .binary .plus (.identifier "n") (.int64 1)⟩]
  inputs := ["x"]
  outputs := ["x", "n"]
  historySpecs := []
  binding_names := by decide
  state_names := by decide
  input_free := by decide
  update_known := by decide
  expr_free := by decide
  fused := none
  fused_inputs := plainCounter_unfused
  fused_commits := fun _ h => by cases h
  fused_exports := fun _ h => by cases h

def plainCounterRuntime : FusedRuntime Int Unit Unit := plainRuntime {} ["x", "n"]

def writeX (v : Value Int) : HostWrites Int := ⟨[("x", v)], []⟩

theorem counter_described : ∃ s₀ t, plainCounter.sessionNew plainCounterRuntime () = .ok s₀ ∧
    plainCounter.tick plainCounterRuntime (s₀.prepare (writeX (.number 2))) = (none, t) ∧
    Described plainCounter.toProgram t.toSession "n" none (some (.int64 1)) := by
  obtain ⟨s₀, hnew, t, htick, hshown⟩ : ∃ s₀, plainCounter.sessionNew plainCounterRuntime () = .ok s₀ ∧
      ∃ t, plainCounter.tick plainCounterRuntime (s₀.prepare (writeX (.number 2))) = (none, t) ∧
        plainCounter.shownAs "n" t = ⟨some (.int64 1), false⟩ := ⟨_, rfl, _, rfl, rfl⟩
  have hran : Ran plainCounterRuntime plainCounter s₀ [t] := .tick (writeX (.number 2)) false .start htick
  have hdescribed := (outputs_described hnew hran "n").mpr fun u earlier hsuffix => by
    obtain ⟨rfl, rfl⟩ : u = t ∧ earlier = [] := by
      rcases List.suffix_cons_iff.mp hsuffix with heq | hnil
      · simpa using heq
      · simp at hnil
    rw [hshown]
    simp [Uniform]
  have hlast := hdescribed t [] (List.suffix_refl _)
  rw [hshown] at hlast
  exact ⟨s₀, t, hnew, htick, hlast⟩

/-- The input is an `int64` before the first tick and a number before the second: it still has the `int64` after it. -/
theorem counter_stale : ∃ s₀, plainCounter.sessionNew plainCounterRuntime () = .ok s₀ ∧
    ¬ ∀ log, Ran plainCounterRuntime plainCounter s₀ log → ∀ name t earlier, (t :: earlier) <:+ log →
      Described plainCounter.toProgram t.toSession name (earlier.head?.bind fun s => (plainCounter.shownAs name s).value)
        (plainCounter.shownAs name t).value := by
  obtain ⟨s₀, hnew, t, htick, u, hagain, hint64, hshown⟩ : ∃ s₀, plainCounter.sessionNew plainCounterRuntime () = .ok s₀ ∧
      ∃ t, plainCounter.tick plainCounterRuntime (s₀.prepare (writeX (.int64 5))) = (none, t) ∧
        ∃ u, plainCounter.tick plainCounterRuntime (t.prepare (writeX (.number 2))) = (none, u) ∧
          getInt64 plainCounter.toProgram u.toSession "x" = some 5 ∧ plainCounter.shownAs "x" u = ⟨some (.number 2), true⟩ :=
    ⟨_, rfl, _, rfl, _, rfl, rfl, rfl⟩
  refine ⟨s₀, hnew, fun h => ?_⟩
  have hran : Ran plainCounterRuntime plainCounter s₀ [u, t] :=
    .tick (writeX (.number 2)) false (.tick (writeX (.int64 5)) false .start htick) hagain
  have hlast := (h [u, t] hran "x" u [t] (List.suffix_refl _)).int64
  rw [hint64, hshown] at hlast
  cases hlast

end
end Cxpr.Model
