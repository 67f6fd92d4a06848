import Cxpr.Model.FusedRetry

/-! A failed tick can be retried, unless it fails when the histories are captured: then the outputs have been refreshed
    and the updates stay staged. -/

namespace Cxpr.Model
variable {D χ β : Type}

structure Keeps (free : String → Prop) (s t : Session D χ) : Prop where
  cell : ∀ n, free n → t.ctx.cell n = s.ctx.cell n
  pending : t.pending = s.pending

theorem Keeps.refl (free : String → Prop) (s : Session D χ) : Keeps free s s := ⟨fun _ _ => rfl, rfl⟩

theorem Keeps.trans {free : String → Prop} {s t u : Session D χ} (h : Keeps free s t) (h' : Keeps free t u) :
    Keeps free s u :=
  ⟨fun n hn => (h'.cell n hn).trans (h.cell n hn), h'.pending.trans h.pending⟩

theorem Keeps.foldl {α : Type} {free : String → Prop} {step : Running D χ β → α → Running D χ β} (xs : List α)
    (hstep : ∀ x ∈ xs, ∀ s : Running D χ β, Keeps free s.toSession (step s x).toSession) (s : Running D χ β) :
    Keeps free s.toSession (xs.foldl step s).toSession := by
  induction xs generalizing s with
  | nil => exact Keeps.refl free _
  | cons x xs ih =>
    exact (hstep x List.mem_cons_self s).trans (ih (fun y hy => hstep y (List.mem_cons_of_mem x hy)) (step s x))

section
variable [DecidableEq β] {free : String → Prop} {m : String} {layout : Layout}

theorem keeps_write (rt : FusedRuntime D χ β) (use : SlotUse) (i : Nat) (d : D) (s : Running D χ β) (hm : ¬ free m) :
    Keeps free s.toSession (s.write rt use i m d).toSession := by
  have hne : ∀ n, free n → n ≠ m := fun n hn heq => hm (heq ▸ hn)
  unfold Running.write
  split
  · refine ⟨fun n hn => ?_, rfl⟩
    show (slotSet s.ctx m d).cell n = _
    rw [cell_slotSet, if_neg (hne n hn)]
  · exact ⟨fun n hn => Frame.cell_setValue_of_ne s.ctx (.number d) (hne n hn), rfl⟩

theorem keeps_commits (rt : FusedRuntime D χ β) (hn : ∀ c ∈ layout.commits, ¬ free (layout.stateName c)) (s : Running D χ β) :
    Keeps free s.toSession (layout.commits.zipIdx.foldl (commitFused rt layout true) s).toSession := by
  refine Keeps.foldl _ (fun x hx s => ?_) s
  unfold commitFused
  split
  · exact Keeps.refl free _
  · rename_i value _
    exact keeps_write rt .commit x.2 value { s with
      slots := Function.update s.slots x.1.stateSlot value
      staged := Function.update s.staged x.2 none } (hn x.1 (List.mem_of_getElem? (mem_zipIdx hx)))

variable [Double D]

theorem readInputs_session (rt : FusedRuntime D χ β) (xs : List (SlotRef × Nat)) (s : Running D χ β) :
    (readInputs rt xs s).2.toSession = s.toSession := by
  induction xs generalizing s with
  | nil => rfl
  | cons x xs ih =>
    unfold readInputs readInput
    split
    · rfl
    · rename_i t hread
      rw [ih]
      split at hread
      · cases hread
        rfl
      · split at hread
        · cases hread
        · cases hread
          rfl

theorem keeps_runFused (rt : FusedRuntime D χ β) (hn : ∀ c ∈ layout.commits, ¬ free (layout.stateName c)) (s : Running D χ β) :
    Keeps free s.toSession (runFused rt layout true s).2.toSession := by
  have hread := readInputs_session rt layout.inputs.zipIdx (commitsOf rt layout s)
  have hcommits : Keeps free s.toSession (commitsOf rt layout s).toSession := keeps_commits rt hn s
  rcases hrun : runFused rt layout true s with ⟨result, t⟩
  obtain ⟨err, -, heq⟩ | ⟨u, slots, heq, -, rfl⟩ := runFused_cases hrun
  · rw [heq] at hread
    rw [hread]
    exact hcommits
  · rw [heq] at hread
    show Keeps free s.toSession u.toSession
    rw [hread]
    exact hcommits

theorem keeps_finishFused (rt : FusedRuntime D χ β) (p : Program D) (hn : ∀ r ∈ layout.exports, ¬ free r.name)
    (s : Running D χ β) : Keeps free s.toSession (finishFused rt p layout true s).2.toSession := by
  have hexports : Keeps free s.toSession (layout.exports.zipIdx.foldl (exportFused rt) (stageFused layout s)).toSession := by
    refine Keeps.foldl _ (fun x hx s => ?_) (stageFused layout s)
    have hname := hn x.1 (List.mem_of_getElem? (mem_zipIdx hx))
    unfold exportFused
    split
    · exact ⟨fun n hn => Frame.cell_setValue_of_ne s.ctx (.bool _) fun heq => hname (heq ▸ hn), rfl⟩
    · exact keeps_write rt .export_ x.2 _ _ hname
  unfold finishFused
  simp only [if_true]
  generalize layout.exports.zipIdx.foldl (exportFused rt) (stageFused layout s) = t at hexports ⊢
  have hrefresh : Keeps free t.toSession (refreshOutputsFused p layout t).toSession := by
    unfold refreshOutputsFused
    split <;> exact ⟨fun _ _ => rfl, rfl⟩
  obtain ⟨hctx, -, hpending, -⟩ := captureHistory_keeps rt.toRuntime p.historySpecs (refreshOutputsFused p layout t).toSession
  have hcapture : Keeps free t.toSession
      (captureHistory rt.toRuntime p.historySpecs (refreshOutputsFused p layout t).toSession).2 :=
    hrefresh.trans ⟨fun _ _ => by rw [hctx], hpending⟩
  refine hexports.trans ?_
  rcases hresult : captureHistory rt.toRuntime p.historySpecs (refreshOutputsFused p layout t).toSession with ⟨result, u⟩
  rw [hresult] at hcapture
  cases result <;> exact hcapture

theorem keeps_tickFused (rt : FusedRuntime D χ β) (p : Program D) (hcommits : ∀ c ∈ layout.commits, ¬ free (layout.stateName c))
    (hexports : ∀ r ∈ layout.exports, ¬ free r.name) (s : Running D χ β) :
    Keeps free s.toSession (tickFused rt p layout true s).2.toSession := by
  have hrun := keeps_runFused rt hcommits s
  unfold tickFused
  rcases hresult : runFused rt layout true s with ⟨result, t⟩
  rw [hresult] at hrun
  cases result with
  | some err => exact hrun
  | none => exact hrun.trans (keeps_finishFused rt p hexports t)

/-- The sessions of a program that ticks lead to, whether they succeed or fail; before each of them the host writes
    inputs, and parameters. -/
inductive Compiled.Reached (rt : FusedRuntime D χ β) (c : Compiled D) (s₀ : Running D χ β) : Running D χ β → Prop
  | start : Compiled.Reached rt c s₀ s₀
  | tick {s : Running D χ β} (w : HostWrites D) (hs : Compiled.Reached rt c s₀ s) (hw : ∀ x ∈ w.inputs, x.1 ∈ c.inputs) :
    Compiled.Reached rt c s₀ (c.tick rt { s with toSession := prepare w s.toSession }).2

variable {rt : FusedRuntime D χ β} {c : Compiled D} {s s₀ : Running D χ β}

theorem tick_plain (h : c.fused = none) (s : Running D χ β) :
    c.tick rt s = ((tick rt.toRuntime c.toProgram s.toSession).1,
      { s with toSession := (tick rt.toRuntime c.toProgram s.toSession).2 }) := by
  unfold Compiled.tick
  rw [h]

theorem tame_tick (hlimits : LimitsApart c.toProgram) (htame : Tame c.toProgram s.toSession)
    (hpending : c.fused.isSome → s.pending = []) :
    Tame c.toProgram (c.tick rt s).2.toSession ∧ (c.fused.isSome → (c.tick rt s).2.pending = []) := by
  cases hfused : c.fused with
  | none =>
    refine ⟨?_, nofun⟩
    rw [tick_plain hfused]
    exact htame.tick rt.toRuntime hlimits
  | some layout =>
    have hstaged : s.pending = [] := hpending (by rw [hfused]; rfl)
    rw [tick_fused hfused htame]
    let limited : String → Prop := fun n => ∃ k ∈ c.constants, k.limited = true ∧ k.name = n
    have hcommits : ∀ x ∈ layout.commits, ¬ limited (layout.stateName x) := by
      rintro x hx ⟨k, hk, hlimited, hname⟩
      obtain ⟨b, hb, -, hname'⟩ := c.fused_commits layout hfused x hx
      exact (hlimits k hk hlimited).2.1 b hb (hname'.trans hname.symm)
    have hexports : ∀ r ∈ layout.exports, ¬ limited r.name := by
      rintro r hr ⟨k, hk, hlimited, hname⟩
      obtain ⟨hinputs, hbindings, hstates⟩ := hlimits k hk hlimited
      rcases (c.fused_exports layout hfused).2 r hr with hinput | ⟨b, hb, hname'⟩ | ⟨st, hst, hname'⟩
      · exact hinputs (hname ▸ hinput)
      · exact hbindings b hb (hname'.trans hname.symm)
      · exact hstates st hst (hname'.trans hname.symm)
    have hkeeps := keeps_tickFused rt c.toProgram hcommits hexports s.start
    have hstaged' : (tickFused rt c.toProgram layout true s.start).2.pending = [] := hkeeps.pending.trans hstaged
    refine ⟨⟨?_, fun k hk hlimited => ?_⟩, fun _ => hstaged'⟩
    · rw [hstaged']
      exact nofun
    · rw [hkeeps.cell k.name ⟨k, hk, hlimited, rfl⟩]
      exact htame.limits k hk hlimited

theorem Compiled.Reached.tame (h : c.Reached rt s₀ s) (hlimits : LimitsApart c.toProgram)
    (hstart : Tame c.toProgram s₀.toSession) (hpending : s₀.pending = []) :
    Tame c.toProgram s.toSession ∧ (c.fused.isSome → s.pending = []) := by
  induction h with
  | start => exact ⟨hstart, fun _ => hpending⟩
  | tick w _ hw ih => exact tame_tick hlimits (ih.1.prepare hlimits hw) ih.2

omit [DecidableEq β] in
theorem tame_new {children : χ} (hlimits : LimitsApart c.toProgram) (h : c.sessionNew rt children = .ok s₀) :
    Tame c.toProgram s₀.toSession ∧ s₀.pending = [] := by
  obtain ⟨⟨s, defaults⟩, hnew, hs⟩ := bind_eq_ok.mp h
  cases hs
  refine ⟨tame_sessionNew hlimits hnew, ?_⟩
  obtain ⟨s₁, hconstants, hstates⟩ := bind_eq_ok.mp hnew
  obtain ⟨-, hpending₁, -⟩ := seedConstants_keeps hconstants
  obtain ⟨-, hpending₂, -⟩ := seedStates_keeps hstates
  exact hpending₂.trans hpending₁

variable {types : String → ValueType} {inputs inputs' : List (String × Value D)} {t : Running D χ β}

/-- When a failed tick without fused IR can be retried: it fails in a binding and before it has ticked a child session, no
    binding reads an expression that is evaluated after it, and every expression keeps its type. -/
structure PlainRetry (rt : Runtime D χ) (p : Program D) (types : String → ValueType) (inputs : List (String × Value D))
    (s : Session D χ) : Prop where
  fails : FailsEarly rt p (supply inputs s)
  ordered : ∃ dep, Local rt p.bindings dep ∧ Reorder.Ordered dep p.bindings ∧ ∀ b ∈ p.bindings, ¬ dep b b
  typed : Typed rt p.bindings types s.ctx.paramStores
  shown : s.Typed types

/-- When a failed fused tick can be retried: it fails in its inputs or in its code, the code stores every expression before
    it reads it, and the entries of the inputs and those that are bound have one type. -/
structure FusedRetry (rt : FusedRuntime D χ β) (layout : Layout) (types : String → ValueType)
    (inputs : List (String × Value D)) (s : Running D χ β) : Prop where
  fails : ∃ err f, runFused rt layout true (s.start.supply inputs) = (some err, f)
  stores : ∃ fixed, Sealed rt fixed
  bound : BoundPlain layout s
  inputs : InputsOnly types layout s

end

section
variable [Double D] {reg : Registry D} {indexed : Bool} {depth : Nat} {all : List String} {nan : D}

theorem local_of_scalar {bs : List (Binding D)} (hbs : ∀ b ∈ bs, Scalar reg indexed b.ast) :
    Local (treeRuntime reg depth all nan : Runtime D χ) bs DependsOn := by
  intro a ha view view' eff hagree
  have hcell : ∀ n ∈ astNames a.ast, view'.cell n = view.cell n := by
    intro n hn
    refine hagree.cell n ?_
    rintro ⟨b, -, hdep, hk, rfl⟩
    exact hdep ⟨hk, hn⟩
  have hparams := hagree.params
  rw [treeRuntime_eval_congr (hbs a ha) hcell hparams eff eff, treeRuntime_eval_congr (hbs a ha) (fun _ _ => rfl) rfl eff eff]

theorem treeRuntime_quiet (b : Binding D) : Quiet (treeRuntime reg depth all nan : Runtime D χ) b := by
  intro view eff
  unfold Runtime.eval
  cases b.resultKind with
  | number | int64 | unknown => rfl
  | bool =>
    show (Runtime.evalAstBoolResult _ b.ast view eff).2.children = eff.children
    unfold Runtime.evalAstBoolResult treeRuntime
    dsimp only
    cases treeValue reg depth all b.ast view with
    | error err => rfl
    | ok v => cases v <;> rfl

omit [Double D] in
theorem typed_of_number (rt : Runtime D χ) {bs : List (Binding D)} {types : String → ValueType} (params : Params D)
    (hkind : ∀ b ∈ bs, b.kind = .expr → b.resultKind = .number ∧ types b.name = .number) : Typed rt bs types params := by
  intro b hb hk view eff v eff' _ _ heval
  obtain ⟨hnumber, htype⟩ := hkind b hb hk
  rw [htype]
  rw [hnumber] at heval
  have hresult := congrArg Prod.fst heval
  change Except.map Value.number (rt.evalAstNumber b.ast view eff).1 = .ok v at hresult
  cases hvalue : (rt.evalAstNumber b.ast view eff).1 with
  | error err => rw [hvalue] at hresult; cases hresult
  | ok d =>
    rw [hvalue] at hresult
    cases hresult
    rfl

end

theorem tick_capture_failed [Double D] {rt : Runtime D χ} {p : Program D} {s u : Session D χ} {spec : HistorySpec D}
    {specs : List (HistorySpec D)} {target : Ast D} {err : Error} {eff : Effects D χ}
    (heval : evalBindings rt p.bindings (ready rt p s) = (none, u)) (hspecs : p.historySpecs = spec :: specs)
    (hvalue : (refreshOutputs p u).historyValue spec.name = none) (hspec : spec.target = some target)
    (htarget : rt.evalAst target (refreshOutputs p u).view u.effects = (.error err, eff)) :
    tick rt p s = (some ⟨.outOfMemory, "Out of memory"⟩, { refreshOutputs p u with effects := eff }) := by
  have hcapture : captureHistory rt (spec :: specs) (refreshOutputs p u) =
      (some err, { refreshOutputs p u with effects := eff }) := by
    have htarget' : rt.evalAst target (refreshOutputs p u).view (refreshOutputs p u).effects = (.error err, eff) := htarget
    rw [captureHistory, hvalue, hspec]
    dsimp only
    rw [htarget']
  unfold tick
  rw [heval]
  show finish rt p u = _
  unfold finish
  rw [hspecs, hcapture]

def plainRuntime (reg : Registry Int) (names : List String) : FusedRuntime Int Unit Unit where
  toRuntime := treeRuntime reg 2 names 0
  execScalarFast _ slots := (none, slots)
  variablesBase _ := ()
  payload _ := 0

theorem nodup_s : (([⟨"s", .number, .inl (.number 0)⟩] : List (StateDefault Int)).map (·.name)).Nodup := by decide

/-- `input x`, `state s = 0`, `a = x + 1`, `b = 6 / x` and `s := s + b`. -/
def quotients : Compiled Int where
  constants := []
  stateDefaults := [⟨"s", .number, .inl (.number 0)⟩]
  bindings := [⟨"a", .expr, .number, false, .binary .plus (.identifier "x") (.number 1)⟩,
    ⟨"b", .expr, .number, false, .binary .slash (.number 6) (.identifier "x")⟩,
    ⟨"s", .stateUpdate, .number, false, .binary .plus (.identifier "s") (.identifier "b")⟩]
  inputs := ["x"]
  outputs := ["s"]
  historySpecs := []
  binding_names := by decide
  state_names := nodup_s
  input_free := by simp
  update_known := by simp
  expr_free := by simp
  fused := none
  fused_inputs := nofun
  fused_commits := nofun
  fused_exports := nofun

def quotientsRuntime : FusedRuntime Int Unit Unit := plainRuntime {} ["x", "a", "b", "s"]

/-- `input x`, `state n = 0`, `n := n + 1` and `c = x[1]`. -/
def sampled : Compiled Int where
  constants := []
  stateDefaults := [⟨"n", .number, .inl (.number 0)⟩]
  bindings := [⟨"n", .stateUpdate, .number, false, .binary .plus (.identifier "n") (.number 1)⟩,
    ⟨"c", .expr, .unknown, false, .index (.identifier "x") (.number 1)⟩]
  inputs := ["x"]
  outputs := ["n"]
  historySpecs := [⟨"x", some (.identifier "x"), 1⟩]
  binding_names := by decide
  state_names := by decide
  input_free := by simp
  update_known := by simp
  expr_free := by simp
  fused := none
  fused_inputs := nofun
  fused_commits := nofun
  fused_exports := nofun

/-- The runtime of the program. As long as the history of `x` is empty, a lookback is `NAN`. -/
def sampledRuntime : FusedRuntime Int Unit Unit :=
  plainRuntime { lookbackResolver := some fun _ _ _ => .ok (some (.number 0)) } ["x", "n", "c"]

theorem splitOn_x : "x".splitOn "." = ["x"] := by
  unfold String.splitOn
  rw [if_neg (by decide), String.splitOnAux, if_neg (by decide), if_neg (by decide), String.splitOnAux, if_pos (by decide)]
  decide

end Cxpr.Model
