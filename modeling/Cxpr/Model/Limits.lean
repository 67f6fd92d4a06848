import Cxpr.ContextWrites
import Cxpr.Model.Failure

/-! The limits of parameters. The loop that enforces them goes over the variables that have the names of the parameters,
    so what an expression reads of a parameter is what was last written to it. -/

namespace Cxpr.Model
variable {D χ β : Type}

/-- `cxpr_context_get_param_typed` on the context of a session. -/
def View.getParamTyped (view : View D) (name : String) : Option (Value D) :=
  (view.params.boolParams.lookup name).map .bool <|>
  ((view.params.int64Params.lookup name).map .int64 <|>
  ((view.params.stringParams.lookup name).map .string <|>
  ((view.params.arrayParams.lookup name).map .array <|>
  ((view.cell name).struct.map .struct <|>
  ((match name.splitOn "." with
    | [root, field] =>
      if root == "" || 256 ≤ root.utf8ByteSize then none else (view.cell root).struct.bind (structGetField · field)
    | _ => none) <|>
  (view.params.params.lookup name).map .number)))))

theorem getParamTyped_view (s : Session D χ) (name : String) :
    s.view.getParamTyped name = Context.getParamTyped [s.ctx] name := by
  have hnone {α : Type} (x : Option α) : (x <|> none) = x := by cases x <;> rfl
  simp only [View.getParamTyped, Context.getParamTyped, Context.getParam, Frame.dottedParam, Session.view,
    Frame.paramStores, Frame.cell, hnone] <;> rfl

def Undotted (name : String) : Prop := ∀ root field, name.splitOn "." ≠ [root, field]

theorem View.getParamTyped_of_undotted (view : View D) {name : String} (hname : Undotted name) :
    view.getParamTyped name =
      ((view.params.boolParams.lookup name).map .bool <|>
      ((view.params.int64Params.lookup name).map .int64 <|>
      ((view.params.stringParams.lookup name).map .string <|>
      ((view.params.arrayParams.lookup name).map .array <|>
      ((view.cell name).struct.map .struct <|>
      (view.params.params.lookup name).map .number))))) := by
  have hdotted : (match name.splitOn "." with
      | [root, field] =>
        if root == "" || 256 ≤ root.utf8ByteSize then none else (view.cell root).struct.bind (structGetField · field)
      | _ => none) = none := by
    split
    · rename_i hsplit
      exact (hname _ _ hsplit).elim
    · rfl
  rw [View.getParamTyped, hdotted]
  rfl

structure View.Holds (view : View D) (name : String) (d : D) : Prop where
  number : view.params.params.lookup name = some d
  bool : view.params.boolParams.lookup name = none
  int64 : view.params.int64Params.lookup name = none
  string : view.params.stringParams.lookup name = none
  array : view.params.arrayParams.lookup name = none
  struct : (view.cell name).struct = none

theorem View.Holds.getParamTyped {view : View D} {name : String} {d : D} (h : view.Holds name d) (hname : Undotted name) :
    view.getParamTyped name = some (.number d) := by
  rw [view.getParamTyped_of_undotted hname, h.bool, h.int64, h.string, h.array, h.struct, h.number]
  rfl

/-! ### What a tick leaves of a parameter -/

def Unstaged (n : String) (s : Session D χ) : Prop := ∀ x ∈ s.pending, x.1.name ≠ n

structure Leaves (n : String) (s t : Session D χ) : Prop where
  params : t.ctx.paramStores = s.ctx.paramStores
  struct : (s.ctx.cell n).struct = none → (t.ctx.cell n).struct = none
  unstaged : Unstaged n s → Unstaged n t

section
variable {n m : String} {s t u : Session D χ}

theorem Leaves.refl (n : String) (s : Session D χ) : Leaves n s s := ⟨rfl, id, id⟩

theorem Leaves.trans (h : Leaves n s t) (h' : Leaves n t u) : Leaves n s u :=
  ⟨h'.params.trans h.params, fun hs => h'.struct (h.struct hs), fun hs => h'.unstaged (h.unstaged hs)⟩

theorem Leaves.of_ctx (h : t.ctx = s.ctx) (hpending : t.pending ⊆ s.pending) : Leaves n s t :=
  ⟨by rw [h], by rw [h]; exact id, fun hs x hx => hs x (hpending hx)⟩

theorem Leaves.holds {d : D} (h : Leaves n s t) (hs : s.view.Holds n d) : t.view.Holds n d := by
  have hparams : t.view.params = s.view.params := h.params
  exact ⟨hparams ▸ hs.number, hparams ▸ hs.bool, hparams ▸ hs.int64, hparams ▸ hs.string, hparams ▸ hs.array,
    h.struct hs.struct⟩

theorem leaves_setValue {v : Value D} (hctx : t.ctx = s.ctx.setValue m v) (hpending : t.pending = s.pending)
    (h : m = n → v.type ≠ .struct) : Leaves n s t := by
  refine ⟨by rw [hctx, Frame.paramStores_setValue], fun hs => ?_, fun hs x hx => hs x (hpending ▸ hx)⟩
  rw [hctx, Frame.cell_setValue]
  split
  · rename_i hn
    have hv := h hn.symm
    cases v with
    | struct fields => exact (hv rfl).elim
    | null | timestamp _ | duration _ => exact hs
    | _ => rfl
  · exact hs

theorem leaves_foldl {α σ : Type} (session : σ → Session D χ) {step : σ → α → σ} (xs : List α)
    (hstep : ∀ x ∈ xs, ∀ s, Leaves n (session s) (session (step s x))) (s : σ) :
    Leaves n (session s) (session (xs.foldl step s)) := by
  induction xs generalizing s with
  | nil => exact Leaves.refl n _
  | cons x xs ih =>
    exact (hstep x List.mem_cons_self s).trans (ih (fun y hy => hstep y (List.mem_cons_of_mem x hy)) (step s x))

theorem leaves_commitValue (rt : Runtime D χ) (s : Session D χ) {x : Binding D × Value D} (hx : x.1.name ≠ n) :
    Leaves n s (commitValue rt s x) := by
  unfold commitValue pushBuffer
  split
  · split
    · exact Leaves.refl n s
    · split
      · exact Leaves.refl n s
      · exact leaves_setValue (v := .array _) rfl rfl fun heq => (hx heq).elim
  · exact leaves_setValue rfl rfl fun heq => (hx heq).elim

theorem leaves_assign {b : Binding D} (v : Value D) (s : Session D χ) (hb : b.name ≠ n) : Leaves n s (assign b v s) := by
  unfold assign
  split
  · refine ⟨rfl, id, fun hs x hx => ?_⟩
    rcases List.mem_append.mp hx with hx | hx
    · exact hs x hx
    · obtain rfl := List.mem_singleton.mp hx
      exact hb
  · exact leaves_setValue rfl rfl fun heq => (hb heq).elim

theorem leaves_evalBindings (rt : Runtime D χ) {bs : List (Binding D)} (hbs : ∀ b ∈ bs, b.name ≠ n) (s : Session D χ) :
    Leaves n s (evalBindings rt bs s).2 := by
  induction bs generalizing s with
  | nil => exact Leaves.refl n s
  | cons b bs ih =>
    unfold evalBindings
    rcases rt.eval b.resultKind b.ast s.view s.effects with ⟨_ | v, eff⟩
    · exact Leaves.of_ctx rfl fun x hx => by cases hx
    · have heffects : Leaves n s { s with effects := eff } := ⟨rfl, id, id⟩
      have hassign := leaves_assign v { s with effects := eff } (hbs b List.mem_cons_self)
      have hrest := ih (fun b' hb' => hbs b' (List.mem_cons_of_mem b hb')) (assign b v { s with effects := eff })
      exact (heffects.trans hassign).trans hrest

variable [Double D]

theorem leaves_clampConstants (cs : List (Constant D)) (s : Session D χ) : Leaves n s (cs.foldl clampConstant s) := by
  refine leaves_foldl id cs (fun c _ s => ?_) s
  unfold clampConstant
  split
  · split
    · exact Leaves.refl n s
    · exact leaves_setValue (v := .number _) rfl rfl nofun
  · exact Leaves.refl n s

theorem leaves_ready (rt : Runtime D χ) (p : Program D) (s : Session D χ) (hs : Unstaged n s) :
    Leaves n s (ready rt p s) := by
  obtain ⟨ctx, hclamp, -⟩ := clampConstants_eq p.constants s
  have hpending : (clearCachedStructs (clampConstants p s)).pending = s.pending := by
    unfold clampConstants
    rw [hclamp]
    rfl
  have hcommit := leaves_foldl id s.pending (fun x hx t => leaves_commitValue rt t (hs x hx))
    (clearCachedStructs (clampConstants p s))
  have hclear : Leaves n s (clearCachedStructs (clampConstants p s)) :=
    (leaves_clampConstants p.constants s).trans ⟨rfl, id, id⟩
  unfold ready commitPending
  rw [hpending]
  exact (hclear.trans hcommit).trans (Leaves.of_ctx rfl nofun)

end

section
variable [DecidableEq β] {n : String} {layout : Layout}

theorem leaves_write (rt : FusedRuntime D χ β) (use : SlotUse) (i : Nat) (m : String) (d : D) (s : Running D χ β) :
    Leaves n s.toSession (s.write rt use i m d).toSession := by
  unfold Running.write
  split
  · exact ⟨rfl, id, id⟩
  · exact leaves_setValue (v := .number d) rfl rfl nofun

theorem leaves_commits (rt : FusedRuntime D χ β) (layout : Layout) (materialize : Bool) (s : Running D χ β) :
    Leaves n s.toSession (layout.commits.zipIdx.foldl (commitFused rt layout materialize) s).toSession := by
  refine leaves_foldl (·.toSession) _ (fun x _ s => ?_) s
  unfold commitFused
  split
  · exact Leaves.refl n _
  · rename_i value _
    cases materialize with
    | false => exact ⟨rfl, id, id⟩
    | true => exact leaves_write rt .commit x.2 (layout.stateName x.1) value { s with
        slots := Function.update s.slots x.1.stateSlot value
        staged := Function.update s.staged x.2 none }

variable [Double D]

theorem leaves_exports (rt : FusedRuntime D χ β) (xs : List (SlotRef × Nat)) (s : Running D χ β) :
    Leaves n s.toSession (xs.foldl (exportFused rt) s).toSession := by
  refine leaves_foldl (·.toSession) xs (fun x _ s => ?_) s
  unfold exportFused
  split
  · exact leaves_setValue (v := .bool _) rfl rfl nofun
  · exact leaves_write rt .export_ x.2 x.1.name _ s

end

/-! ### The evaluations of a tick -/

section
variable [Double D]

omit [Double D] in
def evalViews (rt : Runtime D χ) : List (Binding D) → Session D χ → List (View D)
  | [], _ => []
  | b :: bs, s =>
    s.view :: match rt.eval b.resultKind b.ast s.view s.effects with
      | (.error _, _) => []
      | (.ok v, eff) => evalViews rt bs (assign b v { s with effects := eff })

def captureViews (rt : Runtime D χ) : List (HistorySpec D) → Session D χ → List (View D)
  | [], _ => []
  | spec :: specs, s =>
    match s.historyValue spec.name, spec.target with
    | some v, _ => captureViews rt specs { s with histories := historyPush spec.name v s.histories }
    | none, none => captureViews rt specs s
    | none, some target =>
      s.view :: match rt.evalAst target s.view s.effects with
        | (.error _, _) => []
        | (.ok v, eff) =>
          captureViews rt specs { s with effects := eff, histories := historyPush spec.name v s.histories }

/-- What the evaluations of `tick` see. -/
def tickViews (rt : Runtime D χ) (p : Program D) (s : Session D χ) : List (View D) :=
  evalViews rt p.bindings (ready rt p s) ++
    match evalBindings rt p.bindings (ready rt p s) with
    | (some _, _) => []
    | (none, s) => captureViews rt p.historySpecs (refreshOutputs p s)

def fusedViews [DecidableEq β] (rt : FusedRuntime D χ β) (p : Program D) (layout : Layout) (materializeContext : Bool)
    (s : Running D χ β) : List (View D) :=
  match readInputs rt layout.inputs.zipIdx (layout.commits.zipIdx.foldl (commitFused rt layout materializeContext) s) with
  | (some _, _) => []
  | (none, s) =>
    s.view :: match rt.execScalarFast s.view s.slots with
      | (some _, _) => []
      | (none, slots) =>
        if materializeContext then
          captureViews rt.toRuntime p.historySpecs (refreshOutputsFused p layout
            (layout.exports.zipIdx.foldl (exportFused rt) (stageFused layout { s with slots := slots }))).toSession
        else []

/-- What the evaluations of `cxpr_model_session_tick` see. -/
def Compiled.tickViews [DecidableEq β] (rt : FusedRuntime D χ β) (c : Compiled D) (s : Running D χ β) : List (View D) :=
  match c.fused with
  | none => Model.tickViews rt.toRuntime c.toProgram s.toSession
  | some layout =>
    fusedViews rt c.toProgram layout true
      { s with toSession := clearCachedStructs (clampConstants c.toProgram s.toSession) }

/-- What the evaluations of `cxpr_model_session_tick_fast` see. -/
def Compiled.tickFastViews [DecidableEq β] (rt : FusedRuntime D χ β) (c : Compiled D) (s : Running D χ β) : List (View D) :=
  match c.fused with
  | none => c.tickViews rt s
  | some layout => if 0 < s.histories.length then c.tickViews rt s else fusedViews rt c.toProgram layout false s

variable {n : String} {d : D}

variable {s : Session D χ}

omit [Double D] in
theorem evalViews_holds (rt : Runtime D χ) {bs : List (Binding D)} (hbs : ∀ b ∈ bs, b.name ≠ n)
    (hs : s.view.Holds n d) : ∀ view ∈ evalViews rt bs s, view.Holds n d := by
  induction bs generalizing s with
  | nil => exact nofun
  | cons b bs ih =>
    unfold evalViews
    refine List.forall_mem_cons.mpr ⟨hs, ?_⟩
    rcases rt.eval b.resultKind b.ast s.view s.effects with ⟨_ | v, eff⟩
    · exact nofun
    · have hassign := leaves_assign v { s with effects := eff } (hbs b List.mem_cons_self)
      exact ih (fun b' hb' => hbs b' (List.mem_cons_of_mem b hb')) (hassign.holds hs)

omit [Double D] in
theorem captureViews_holds (rt : Runtime D χ) (specs : List (HistorySpec D)) (hs : s.view.Holds n d) :
    ∀ view ∈ captureViews rt specs s, view.Holds n d := by
  induction specs generalizing s with
  | nil => exact nofun
  | cons spec specs ih =>
    unfold captureViews
    split
    · exact ih ⟨hs.number, hs.bool, hs.int64, hs.string, hs.array, hs.struct⟩
    · exact ih hs
    · rename_i target _ _
      refine List.forall_mem_cons.mpr ⟨hs, ?_⟩
      rcases rt.evalAst target s.view s.effects with ⟨_ | v, eff⟩
      · exact nofun
      · exact ih ⟨hs.number, hs.bool, hs.int64, hs.string, hs.array, hs.struct⟩

theorem tickViews_holds (rt : Runtime D χ) {p : Program D} (hbindings : ∀ b ∈ p.bindings, b.name ≠ n)
    (hs : s.view.Holds n d) (hunstaged : Unstaged n s) : ∀ view ∈ tickViews rt p s, view.Holds n d := by
  have hready := (leaves_ready rt p s hunstaged).holds hs
  have heval := (leaves_evalBindings rt hbindings (ready rt p s)).holds hready
  intro view hview
  rcases List.mem_append.mp hview with hview | hview
  · exact evalViews_holds rt hbindings hready view hview
  · rcases hresult : evalBindings rt p.bindings (ready rt p s) with ⟨_ | err, t⟩
    · rw [hresult] at hview heval
      exact captureViews_holds rt p.historySpecs (s := refreshOutputs p t) heval view hview
    · rw [hresult] at hview
      cases hview

theorem leaves_tick (rt : Runtime D χ) {p : Program D} (hbindings : ∀ b ∈ p.bindings, b.name ≠ n)
    (hunstaged : Unstaged n s) : Leaves n s (tick rt p s).2 := by
  obtain ⟨hctx, hpending⟩ := tick_keeps rt p s
  have heval := (leaves_ready rt p s hunstaged).trans (leaves_evalBindings rt hbindings (ready rt p s))
  exact heval.trans (Leaves.of_ctx hctx (hpending ▸ List.Subset.refl _))

variable [DecidableEq β] {layout : Layout}

omit [DecidableEq β] in
theorem leaves_refreshOutputsFused (p : Program D) (layout : Layout) (s : Running D χ β) :
    Leaves n s.toSession (refreshOutputsFused p layout s).toSession := by
  unfold refreshOutputsFused
  split <;> exact ⟨rfl, id, id⟩

omit [Double D] [DecidableEq β] in
theorem leaves_captureHistory (rt : Runtime D χ) (specs : List (HistorySpec D)) (s : Session D χ) :
    Leaves n s (captureHistory rt specs s).2 := by
  obtain ⟨hctx, -, hpending, -⟩ := captureHistory_keeps rt specs s
  exact Leaves.of_ctx hctx (hpending ▸ List.Subset.refl _)

theorem leaves_readInputs (rt : FusedRuntime D χ β) (layout : Layout) (materialize : Bool) (s : Running D χ β) :
    Leaves n s.toSession (readInputs rt layout.inputs.zipIdx
      (layout.commits.zipIdx.foldl (commitFused rt layout materialize) s)).2.toSession := by
  rw [readInputs_session]
  exact leaves_commits rt layout materialize s

theorem leaves_runFused (rt : FusedRuntime D χ β) (layout : Layout) (materialize : Bool) (s : Running D χ β) :
    Leaves n s.toSession (runFused rt layout materialize s).2.toSession := by
  have hread := leaves_readInputs (n := n) rt layout materialize s
  unfold runFused
  generalize readInputs rt layout.inputs.zipIdx _ = result at hread ⊢
  obtain ⟨_ | err, t⟩ := result <;> exact hread

theorem leaves_finishFused (rt : FusedRuntime D χ β) (p : Program D) (layout : Layout) (materialize : Bool)
    (s : Running D χ β) : Leaves n s.toSession (finishFused rt p layout materialize s).2.toSession := by
  have hstage : Leaves n s.toSession (stageFused layout s).toSession := Leaves.refl n _
  unfold finishFused
  cases materialize with
  | false => exact hstage.trans (leaves_refreshOutputsFused p layout _)
  | true =>
    have hexports := hstage.trans (leaves_exports rt layout.exports.zipIdx (stageFused layout s))
    have hrefresh := hexports.trans (leaves_refreshOutputsFused p layout _)
    have hcapture := hrefresh.trans (leaves_captureHistory rt.toRuntime p.historySpecs _)
    simp only [if_true]
    rcases hresult : captureHistory rt.toRuntime p.historySpecs (refreshOutputsFused p layout
      (layout.exports.zipIdx.foldl (exportFused rt) (stageFused layout s))).toSession with ⟨_ | err, t⟩ <;>
    · rw [hresult] at hcapture
      exact hcapture

theorem leaves_tickFused (rt : FusedRuntime D χ β) (p : Program D) (layout : Layout) (materialize : Bool)
    (s : Running D χ β) : Leaves n s.toSession (tickFused rt p layout materialize s).2.toSession := by
  have hrun := leaves_runFused (n := n) rt layout materialize s
  unfold tickFused
  rcases hresult : runFused rt layout materialize s with ⟨_ | err, t⟩
  · rw [hresult] at hrun
    exact hrun.trans (leaves_finishFused rt p layout materialize t)
  · rw [hresult] at hrun
    exact hrun

theorem fusedViews_holds (rt : FusedRuntime D χ β) (p : Program D) (layout : Layout) (materialize : Bool)
    {s : Running D χ β} (hs : s.view.Holds n d) : ∀ view ∈ fusedViews rt p layout materialize s, view.Holds n d := by
  have hread := leaves_readInputs (n := n) rt layout materialize s
  unfold fusedViews
  generalize readInputs rt layout.inputs.zipIdx _ = result at hread ⊢
  obtain ⟨_ | err, t⟩ := result
  · refine List.forall_mem_cons.mpr ⟨hread.holds hs, ?_⟩
    rcases rt.execScalarFast t.view t.slots with ⟨_ | err, slots⟩
    · cases materialize with
      | false => exact nofun
      | true =>
        have hexports := hread.trans
          (leaves_exports rt layout.exports.zipIdx (stageFused layout { t with slots := slots }))
        exact captureViews_holds rt.toRuntime p.historySpecs
          ((hexports.trans (leaves_refreshOutputsFused p layout _)).holds hs)
    · exact nofun
  · exact nofun

/-! ### Runs -/

inductive HostStep (D : Type) where
  | setParam (name : String) (value : D)
  | setParamValue (name : String) (value : Value D)
  | set (w : Write D)
  | tick
  | tickFast

def Compiled.perform (rt : FusedRuntime D χ β) (c : Compiled D) (s : Running D χ β) : HostStep D → Running D χ β
  | .setParam name value => { s with ctx := s.ctx.setParam name value }
  | .setParamValue name value => { s with ctx := s.ctx.setParamValue name value }
  | .set w => { s with ctx := w.apply s.ctx }
  | .tick => (c.tick rt s).2
  | .tickFast => (c.tickFast rt s).2

def Compiled.views (rt : FusedRuntime D χ β) (c : Compiled D) (s : Running D χ β) : HostStep D → List (View D)
  | .tick => c.tickViews rt s
  | .tickFast => c.tickFastViews rt s
  | _ => []

omit [Double D] in
/-- What a step writes to a parameter. `cxpr_context_set_param_value` ignores a null, a timestamp and a duration. -/
def HostStep.written (n : String) : HostStep D → Option (Value D)
  | .setParam name value => if name = n then some (.number value) else none
  | .setParamValue name value =>
    if name = n then
      match value with
      | .null | .timestamp _ | .duration _ => none
      | v => some v
    else none
  | _ => none

omit [Double D] in
def defaultValue (rt : Runtime D χ) (n : String) : List (Constant D) → Session D χ → Option (Value D)
  | [], _ => none
  | k :: ks, s =>
    match rt.evalAst k.ast s.view s.effects with
    | (.error _, _) => none
    | (.ok v, eff) =>
      defaultValue rt n ks { s with effects := eff, ctx := s.ctx.setParamValue k.name v } <|>
        (HostStep.setParamValue k.name v).written n

def lastWritten (rt : Runtime D χ) (p : Program D) (children : χ) (n : String) (steps : List (HostStep D)) :
    Option (Value D) :=
  steps.foldl (fun last step => step.written n <|> last) (defaultValue rt n p.constants (blank rt p children))

omit [Double D] [DecidableEq β] in
def Follows (n : String) (last : Option (Value D)) (s : Session D χ) : Prop :=
  Unstaged n s ∧ ∀ d, last = some (.number d) → s.view.Holds n d

section
variable {last : Option (Value D)}

variable {s t : Session D χ}

omit [Double D] [DecidableEq β] in
theorem Follows.leaves (h : Follows n last s) (hleaves : Leaves n s t) : Follows n last t :=
  ⟨hleaves.unstaged h.1, fun d hd => hleaves.holds (h.2 d hd)⟩

omit [Double D] [DecidableEq β] in
theorem holds_setParam (s : Session D χ) (n : String) (d : D) :
    ({ s with ctx := s.ctx.setParam n d } : Session D χ).view.Holds n d := by
  constructor <;> simp [Session.view, Frame.paramStores, Frame.cell, Frame.setParam]

omit [Double D] [DecidableEq β] in
theorem View.Holds.setParamValue_of_ne (h : s.view.Holds n d) {m : String} (hne : n ≠ m) (v : Value D) :
    ({ s with ctx := s.ctx.setParamValue m v } : Session D χ).view.Holds n d := by
  obtain ⟨hnumber, hbool, hint64, hstring, harray, hstruct⟩ := h
  simp only [Session.view, Frame.paramStores, Frame.cell] at hnumber hbool hint64 hstring harray hstruct
  cases v <;> constructor <;>
    simp [Session.view, Frame.paramStores, Frame.cell, Frame.setParamValue, Frame.setParam, Frame.setParamBool,
      Frame.setParamInt64, Frame.setParamString, *]

omit [Double D] [DecidableEq β] in
theorem Follows.setParamValue (h : Follows n last s) (m : String) (v : Value D) :
    Follows n ((HostStep.setParamValue m v).written n <|> last) { s with ctx := s.ctx.setParamValue m v } := by
  refine ⟨h.1, fun d hd => ?_⟩
  simp only [HostStep.written] at hd
  by_cases hm : m = n
  · subst hm
    rw [if_pos rfl] at hd
    cases v with
    | number _ =>
      cases hd
      exact holds_setParam s m d
    | null | timestamp _ | duration _ => exact h.2 d hd
    | _ => cases hd
  · rw [if_neg hm] at hd
    exact (h.2 d hd).setParamValue_of_ne (Ne.symm hm) v

omit [Double D] [DecidableEq β] in
theorem follows_seedConstants {rt : Runtime D χ} {ks : List (Constant D)} (h : Follows n last s)
    (hseed : seedConstants rt ks s = .ok t) : Follows n (defaultValue rt n ks s <|> last) t := by
  induction ks generalizing s last with
  | nil =>
    cases hseed
    exact h
  | cons k ks ih =>
    unfold seedConstants at hseed
    unfold defaultValue
    rcases heval : rt.evalAst k.ast s.view s.effects with ⟨_ | v, eff⟩
    · rw [heval] at hseed
      cases hseed
    · rw [heval] at hseed
      have hstep := Follows.setParamValue (s := { s with effects := eff }) h k.name v
      have hrest := ih hstep hseed
      simpa [Option.orElse_eq_or, Option.or_assoc] using hrest

omit [Double D] [DecidableEq β] in
theorem leaves_seedStates {rt : Runtime D χ} {sts : List (StateDefault D)}
    {defaults : List (String × Value D)} (hsts : ∀ st ∈ sts, st.name ≠ n)
    (h : seedStates rt sts s = .ok (t, defaults)) : Leaves n s t := by
  induction sts generalizing s defaults with
  | nil =>
    cases h
    exact Leaves.refl n _
  | cons st sts ih =>
    have hrest := fun st' hst' => hsts st' (List.mem_cons_of_mem st hst')
    rcases seedStates_cons h with ⟨-, htail⟩ | ⟨ast, v, eff, defaults', -, -, htail⟩
    · exact ih hrest htail
    · have hset : Leaves n s { s with effects := eff, ctx := s.ctx.setValue st.name v } :=
        leaves_setValue rfl rfl fun heq => (hsts st List.mem_cons_self heq).elim
      exact hset.trans (ih hrest htail)

end

omit [Double D] [DecidableEq β] in
structure Program.NameApart (p : Program D) (n : String) : Prop where
  undotted : Undotted n
  bindings : ∀ b ∈ p.bindings, b.name ≠ n
  states : ∀ st ∈ p.stateDefaults, st.name ≠ n

omit [Double D] [DecidableEq β] in
def HostStep.Spares (n : String) : HostStep D → Prop
  | .set w => w.name = n → ∀ v, w.value? = some v → v.type ≠ .struct
  | _ => True

section
variable {rt : FusedRuntime D χ β} {c : Compiled D} {s s₀ : Running D χ β}

theorem leaves_compiledTick (hbindings : ∀ b ∈ c.bindings, b.name ≠ n) (hunstaged : Unstaged n s.toSession) :
    Leaves n s.toSession (c.tick rt s).2.toSession := by
  cases hfused : c.fused with
  | none =>
    rw [tick_plain hfused]
    exact leaves_tick rt.toRuntime hbindings hunstaged
  | some layout =>
    have hclear : Leaves n s.toSession (clearCachedStructs (clampConstants c.toProgram s.toSession)) :=
      (leaves_clampConstants c.constants s.toSession).trans ⟨rfl, id, id⟩
    unfold Compiled.tick
    rw [hfused]
    exact hclear.trans (leaves_tickFused rt c.toProgram layout true
      { s with toSession := clearCachedStructs (clampConstants c.toProgram s.toSession) })

theorem leaves_tickFast (hbindings : ∀ b ∈ c.bindings, b.name ≠ n) (hunstaged : Unstaged n s.toSession) :
    Leaves n s.toSession (c.tickFast rt s).2.toSession := by
  unfold Compiled.tickFast
  split
  · exact leaves_compiledTick hbindings hunstaged
  · split
    · exact leaves_compiledTick hbindings hunstaged
    · exact leaves_tickFused rt c.toProgram _ false s

omit [DecidableEq β] [Double D] in
theorem leaves_set {w : Write D} (hspares : (HostStep.set w).Spares n) (s : Session D χ) :
    Leaves n s { s with ctx := w.apply s.ctx } := by
  cases hw : w.value? with
  | none =>
    rw [Write.apply_eq_self hw]
    exact Leaves.refl n s
  | some v =>
    rw [Write.apply_eq_setValue hw]
    exact leaves_setValue rfl rfl fun heq => hspares heq v hw

theorem Follows.perform {last : Option (Value D)} (h : Follows n last s.toSession) (rt : FusedRuntime D χ β)
    (hbindings : ∀ b ∈ c.bindings, b.name ≠ n)
    {step : HostStep D} (hspares : step.Spares n) :
    Follows n (step.written n <|> last) (c.perform rt s step).toSession := by
  cases step with
  | setParam m x => exact h.setParamValue m (.number x)
  | setParamValue m v => exact h.setParamValue m v
  | set w => exact h.leaves (leaves_set hspares s.toSession)
  | tick => exact h.leaves (leaves_compiledTick hbindings h.1)
  | tickFast => exact h.leaves (leaves_tickFast hbindings h.1)

theorem Follows.run {last : Option (Value D)} (h : Follows n last s.toSession) (rt : FusedRuntime D χ β)
    (hbindings : ∀ b ∈ c.bindings, b.name ≠ n)
    {steps : List (HostStep D)} (hspares : ∀ step ∈ steps, step.Spares n) :
    Follows n (steps.foldl (fun last step => step.written n <|> last) last) (steps.foldl (c.perform rt) s).toSession := by
  induction steps generalizing last s with
  | nil => exact h
  | cons step steps ih =>
    have hstep := h.perform rt hbindings (hspares step List.mem_cons_self)
    exact ih hstep fun step' hstep' => hspares step' (List.mem_cons_of_mem step hstep')

omit [DecidableEq β] in
theorem follows_new {children : χ} (happart : c.NameApart n) (hnew : c.sessionNew rt children = .ok s₀) :
    Follows n (defaultValue rt.toRuntime n c.constants (blank rt.toRuntime c.toProgram children)) s₀.toSession := by
  obtain ⟨⟨s, defaults⟩, hseeded, hs⟩ := bind_eq_ok.mp hnew
  cases hs
  obtain ⟨s₁, hconstants, hstates⟩ := bind_eq_ok.mp hseeded
  have hblank : Follows n none (blank rt.toRuntime c.toProgram children) := ⟨nofun, nofun⟩
  have hfollows := follows_seedConstants hblank hconstants
  rw [Option.orElse_eq_orElse, Option.orElse_eq_or, Option.or_none] at hfollows
  exact hfollows.leaves (leaves_seedStates happart.states hstates)

theorem views_hold (hbindings : ∀ b ∈ c.bindings, b.name ≠ n) (hunstaged : Unstaged n s.toSession)
    (hs : s.view.Holds n d) (step : HostStep D) : ∀ view ∈ c.views rt s step, view.Holds n d := by
  have htick : ∀ view ∈ c.tickViews rt s, view.Holds n d := by
    unfold Compiled.tickViews
    split
    · exact tickViews_holds rt.toRuntime hbindings hs hunstaged
    · have hclear : Leaves n s.toSession (clearCachedStructs (clampConstants c.toProgram s.toSession)) :=
        (leaves_clampConstants c.constants s.toSession).trans ⟨rfl, id, id⟩
      exact fusedViews_holds rt c.toProgram _ true (hclear.holds hs)
  cases step with
  | tick => exact htick
  | tickFast =>
    show ∀ view ∈ c.tickFastViews rt s, view.Holds n d
    unfold Compiled.tickFastViews
    split
    · exact htick
    · split
      · exact htick
      · exact fusedViews_holds rt c.toProgram _ false hs
  | _ => exact nofun

omit [DecidableEq β] in
/-- A number that is neither below the minimum of a parameter nor above its maximum. -/
def Constant.Inside (k : Constant D) (d : D) : Prop :=
  Double.isnan d = false ∧ (∀ lo, k.minValue = some lo → Double.lt d lo = false) ∧
    ∀ hi, k.maxValue = some hi → Double.gt d hi = false

omit [DecidableEq β] in
/-- An evaluation reads of the parameter the number last written, clamped to a number within the limits. -/
def Constant.Enforced (k : Constant D) (last : Option (Value D)) (view : View D) : Prop :=
  ∃ d, last = some (.number d) ∧ view.getParamTyped k.name = some (.number (k.clamp d)) ∧ k.Inside (k.clamp d)

omit [DecidableEq β] in
theorem clamp_of_inside {k : Constant D} {d : D} (h : k.Inside d) : k.clamp d = d := by
  obtain ⟨name, ast, lo, hi⟩ := k
  obtain ⟨-, hmin, hmax⟩ := h
  unfold Constant.clamp
  cases lo with
  | none =>
    cases hi with
    | none => rfl
    | some hi => simp [hmax hi rfl]
  | some lo =>
    cases hi with
    | none => simp [hmin lo rfl]
    | some hi => simp [hmin lo rfl, hmax hi rfl]

/-- Over every run of writes and ticks, fast ones included, the limits of a parameter are enforced on an evaluation exactly
    when the value last written to it, or its default, is a number within them. -/
theorem param_limits_iff (rt : FusedRuntime D χ β) (c : Compiled D) (children : χ) (s₀ : Running D χ β) (k : Constant D)
    (steps : List (HostStep D)) (step : HostStep D) (view : View D) (hnew : c.sessionNew rt children = .ok s₀)
    (hname : c.NameApart k.name) (hsteps : ∀ step ∈ steps, step.Spares k.name)
    (hview : view ∈ c.views rt (steps.foldl (c.perform rt) s₀) step) :
    k.Enforced (lastWritten rt.toRuntime c.toProgram children k.name steps) view ↔
      ∃ d, lastWritten rt.toRuntime c.toProgram children k.name steps = some (.number d) ∧ k.Inside d := by
  have hfollows := (follows_new hname hnew).run rt hname.bindings hsteps
  have hread : ∀ d, lastWritten rt.toRuntime c.toProgram children k.name steps = some (.number d) →
      view.getParamTyped k.name = some (.number d) := fun d hd =>
    (views_hold hname.bindings hfollows.1 (hfollows.2 d hd) step view hview).getParamTyped hname.undotted
  constructor
  · rintro ⟨d, hd, hclamped, hinside⟩
    rw [hread d hd] at hclamped
    obtain heq : d = k.clamp d := by simpa using hclamped
    exact ⟨d, hd, heq ▸ hinside⟩
  · rintro ⟨d, hd, hinside⟩
    refine ⟨d, hd, ?_, ?_⟩
    · rw [hread d hd, clamp_of_inside hinside]
    · rw [clamp_of_inside hinside]
      exact hinside

end

end

/-- `$x = 5` with `min = 1` and `max = 9`, and `y = $x`. -/
def gauge : Compiled Int where
  constants := [⟨"x", .number 5, some 1, some 9⟩]
  stateDefaults := []
  bindings := [⟨"y", .expr, .number, false, .param "x"⟩]
  inputs := []
  outputs := ["y"]
  historySpecs := []
  binding_names := by decide
  state_names := List.nodup_nil
  input_free := by simp
  update_known := by simp
  expr_free := by simp
  fused := none
  fused_inputs := nofun
  fused_commits := nofun
  fused_exports := nofun

def gaugeRuntime : FusedRuntime Int Unit Unit := plainRuntime {} ["x", "y"]

theorem undotted_x : Undotted "x" := by
  intro root field h
  rw [splitOn_x] at h
  cases h

theorem gauge_default : ∃ s₀ view, gauge.sessionNew gaugeRuntime () = .ok s₀ ∧
    view ∈ gauge.views gaugeRuntime s₀ .tick ∧
    (⟨"x", .number 5, some 1, some 9⟩ : Constant Int).Enforced
      (lastWritten gaugeRuntime.toRuntime gauge.toProgram () "x" []) view := by
  obtain ⟨s₀, hnew, view, hview, hlast⟩ : ∃ s₀, gauge.sessionNew gaugeRuntime () = .ok s₀ ∧
      ∃ view, view ∈ gauge.views gaugeRuntime s₀ .tick ∧
        lastWritten gaugeRuntime.toRuntime gauge.toProgram () "x" [] = some (.number 5) :=
    ⟨_, rfl, _, List.mem_cons_self, rfl⟩
  have hname : gauge.NameApart "x" := ⟨undotted_x, by decide, nofun⟩
  refine ⟨s₀, view, hnew, hview, ?_⟩
  refine (param_limits_iff gaugeRuntime gauge () s₀ ⟨"x", .number 5, some 1, some 9⟩ [] .tick view hnew hname nofun
    hview).mpr ⟨5, hlast, rfl, ?_, ?_⟩
  · rintro _ ⟨⟩
    rfl
  · rintro _ ⟨⟩
    rfl

theorem gauge_unclamped : ∃ s₀ view, gauge.sessionNew gaugeRuntime () = .ok s₀ ∧
    view ∈ gauge.views gaugeRuntime (gauge.perform gaugeRuntime s₀ (.setParam "x" 40)) .tick ∧
    view.getParamTyped "x" = some (.number 40) ∧
    ¬ (⟨"x", .number 5, some 1, some 9⟩ : Constant Int).Enforced
      (lastWritten gaugeRuntime.toRuntime gauge.toProgram () "x" [.setParam "x" 40]) view := by
  obtain ⟨s₀, hnew, view, hview, hholds⟩ : ∃ s₀, gauge.sessionNew gaugeRuntime () = .ok s₀ ∧
      ∃ view, view ∈ gauge.views gaugeRuntime (gauge.perform gaugeRuntime s₀ (.setParam "x" 40)) .tick ∧
        view.Holds "x" (40 : Int) :=
    ⟨_, rfl, _, List.mem_cons_self, rfl, rfl, rfl, rfl, rfl, rfl⟩
  have hread := hholds.getParamTyped undotted_x
  refine ⟨s₀, view, hnew, hview, hread, ?_⟩
  rintro ⟨d, hd, hclamped, -⟩
  cases hd
  rw [hread] at hclamped
  cases hclamped

end Cxpr.Model
