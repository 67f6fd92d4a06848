import Cxpr.Printer
import Cxpr.Model.FastTick
import Cxpr.Model.Limits

/-! Calls of child models. A call binds the inputs of a child session, writes the parameters that it has arguments for and
    ticks the session. The argument of one call can make others, so the calls that are open at a time form a stack; what
    they do to the child sessions is a run of moves. A parameter that a call has no argument for is left as it is. -/

namespace Cxpr.Model
variable {D χ β : Type}

inductive Lifetime where
  | singleton | scoped_ | transient
deriving DecidableEq, Repr

/-- A `cxpr_model_child_program` with what a call reads of its compiled model; the names of the constants have been checked
    by `cxpr_model_validate_symbols`. -/
structure ChildProgram (D : Type) where
  program : Compiled D
  lifetime : Lifetime
  /-- Whether the constant of an index is an explicit parameter of calls. -/
  isCallParam : Nat → Bool
  sourceInputIndex : Option Nat
  constant_names : (program.constants.map (·.name)).Nodup

structure ChildCall (D : Type) where
  name : String
  args : List (Ast D)
  argNames : List (Option String)

def ChildCall.ofAst : Ast D → Option (ChildCall D)
  | .producerAccess name args argNames _ => some ⟨name, args, argNames⟩
  | .call name args argNames => some ⟨name, args, argNames⟩
  | _ => none

def ChildCall.hasNamedArgs (call : ChildCall D) : Bool := Ast.callUsesNamedArgs call.args.length call.argNames

def ChildCall.cacheKey [Double D] (call : ChildCall D) : String :=
  call.name ++ "(" ++ ",".intercalate (call.args.zipIdx.map fun (arg, i) =>
    (match call.argNames[i]? with | some (some name) => name ++ "=" | _ => "") ++ arg.toText) ++ ")"

def ChildProgram.exposed (child : ChildProgram D) (n : Nat) : Nat :=
  let explicitCount := (List.range child.program.constants.length).countP child.isCallParam
  (List.range n).countP fun i => explicitCount = 0 || child.isCallParam i

def ChildProgram.callParamArg (child : ChildProgram D) (call : ChildCall D) (paramIndex : Nat) : Option (Ast D) :=
  match child.program.constants[paramIndex]? with
  | none => none
  | some k =>
    let explicitCount := (List.range child.program.constants.length).countP child.isCallParam
    if 0 < explicitCount ∧ child.isCallParam paramIndex = false then none
    else if call.hasNamedArgs then
      (call.args.zip call.argNames).findSome? fun (arg, name) => if name = some k.name then some arg else none
    else
      let offset := if child.sourceInputIndex.isSome ∧
        call.args.length = (if 0 < explicitCount then explicitCount else child.program.constants.length) + 1 then 1 else 0
      call.args[child.exposed paramIndex + offset]?

/-! ### Child sessions -/

/-- Where a session is kept that outlives its calls: in `child_sessions`, or in `child_instances` under its key. -/
inductive Seat where
  | session (child : Nat)
  | instance_ (child : Nat) (key : String)
deriving DecidableEq, Repr

def Seat.child : Seat → Nat
  | .session i | .instance_ i _ => i

inductive Place (D χ β : Type) where
  | seat (seat : Seat)
  | own (s : Running D χ β)

/-- A call between its start and its end: how many inputs and parameters it has gone through, and the values of the
    arguments it has evaluated for parameters. -/
structure OpenCall (D χ β : Type) where
  child : Nat
  call : ChildCall D
  place : Place D χ β
  inputs : Nat
  params : Nat
  supplied : String → Option (Value D)

/-- The child sessions of a session, its open calls with the innermost first, and which parameters have been written. -/
structure Family (D χ β : Type) where
  seats : Seat → Option (Running D χ β)
  calls : List (OpenCall D χ β)
  written : List (Seat × String)

/-- The children of a model, the runtimes of their registries and the children of their own. -/
structure Nursery (D χ β : Type) where
  children : List (ChildProgram D)
  rt : Nat → FusedRuntime D χ β
  grandchildren : Nat → χ

/-- What the evaluation of a call does next. A value is that of an argument, or for an input that of a variable. -/
inductive Move (D : Type) where
  | enter (child : Nat) (call : ChildCall D)
  | input (value : Value D)
  | param (value : Value D)
  | skip
  | fail
  | tick

def Family.session (f : Family D χ β) : Place D χ β → Option (Running D χ β)
  | .seat seat => f.seats seat
  | .own s => some s

section
variable [Double D] (env : Nursery D χ β)

def Nursery.sessionNew (i : Nat) : Option (Running D χ β) :=
  (env.children[i]?).bind fun child => (child.program.sessionNew (env.rt i) (env.grandchildren i)).toOption

def Nursery.start : Family D χ β where
  seats
    | .session i => env.sessionNew i
    | .instance_ _ _ => none
  calls := []
  written := []

/-- The start of `cxpr_model_eval_child_producer` for a call without a cached record. -/
def Nursery.enter (f : Family D χ β) (i : Nat) (call : ChildCall D) : Option (Family D χ β) :=
  let open_ (seats : Seat → Option (Running D χ β)) (place : Place D χ β) : Family D χ β :=
    { f with seats := seats, calls := ⟨i, call, place, 0, 0, fun _ => none⟩ :: f.calls }
  match (env.children[i]?).map ChildProgram.lifetime with
  | none => none
  | some .singleton => (f.seats (.session i)).map fun _ => open_ f.seats (.seat (.session i))
  | some .transient => (env.sessionNew i).map fun s => open_ f.seats (.own s)
  | some .scoped_ =>
    let seat := Seat.instance_ i call.cacheKey
    match f.seats seat with
    | some _ => some (open_ f.seats (.seat seat))
    | none => (env.sessionNew i).map fun s => open_ (Function.update f.seats seat (some s)) (.seat seat)

omit [Double D] in
def Family.put (f : Family D χ β) (o : OpenCall D χ β) (s : Running D χ β) : Family D χ β :=
  match o.place with
  | .seat seat => { f with seats := Function.update f.seats seat (some s), calls := o :: f.calls.tail }
  | .own _ => { f with calls := { o with place := .own s } :: f.calls.tail }

omit [Double D] in
def Family.note (f : Family D χ β) (place : Place D χ β) (n : String) : Family D χ β :=
  match place with
  | .seat seat => { f with written := (seat, n) :: f.written }
  | .own _ => f

def Nursery.act [DecidableEq β] (f : Family D χ β) (o : OpenCall D χ β) (child : ChildProgram D) (s : Running D χ β) :
    Move D → Option (Family D χ β)
  | .enter _ _ => none
  | .input v => (child.program.inputs[o.inputs]?).map fun n =>
    f.put { o with inputs := o.inputs + 1 } { s with ctx := s.ctx.setValue n v }
  | .param v =>
    if o.inputs = child.program.inputs.length ∧ child.callParamArg o.call o.params ≠ none then
      (child.program.constants[o.params]?).map fun k =>
        (f.note o.place k.name).put
          { o with params := o.params + 1, supplied := Function.update o.supplied k.name (some v) }
          { s with ctx := s.ctx.setParamValue k.name v }
    else none
  | .skip =>
    if o.inputs = child.program.inputs.length ∧ o.params < child.program.constants.length ∧
      child.callParamArg o.call o.params = none then some (f.put { o with params := o.params + 1 } s)
    else none
  | .fail => some { f with calls := f.calls.tail }
  | .tick =>
    if o.inputs = child.program.inputs.length ∧ o.params = child.program.constants.length then
      let f := f.put o (child.program.tick (env.rt o.child) s).2
      some { f with calls := f.calls.tail }
    else none

def Nursery.step [DecidableEq β] (f : Family D χ β) : Move D → Option (Family D χ β)
  | .enter i call => env.enter f i call
  | move =>
    match f.calls with
    | [] => none
    | o :: _ =>
      match env.children[o.child]?, f.session o.place with
      | some child, some s => env.act f o child s move
      | _, _ => none

/-- The families that moves lead to, each of which is allowed in the family before it. -/
inductive Nursery.Reached [DecidableEq β] (allowed : Family D χ β → Move D → Prop) : Family D χ β → Prop
  | start : Nursery.Reached allowed env.start
  | step {f g : Family D χ β} (move : Move D) (hf : Nursery.Reached allowed f) (hmove : allowed f move)
      (hstep : env.step f move = some g) : Nursery.Reached allowed g

def Nursery.default (i : Nat) (n : String) : Option (Value D) := (env.sessionNew i).bind fun s => s.view.getParamTyped n

/-- The tick of a call reads each parameter as the call has supplied it, or else its default. -/
def Nursery.Isolated [DecidableEq β] (f : Family D χ β) (o : OpenCall D χ β) : Prop :=
  ∀ child s, env.children[o.child]? = some child → f.session o.place = some s → ∀ k ∈ child.program.constants,
    ∀ view ∈ child.program.tickViews (env.rt o.child) s,
      view.getParamTyped k.name = (o.supplied k.name <|> env.default o.child k.name)

end

/-! ### What a tick leaves of a parameter -/

def View.param (view : View D) (n : String) :=
  (view.params.boolParams.lookup n, view.params.int64Params.lookup n, view.params.stringParams.lookup n,
    view.params.arrayParams.lookup n, view.params.params.lookup n, (view.cell n).struct)

theorem getParamTyped_congr {view view' : View D} {n : String} (hn : Undotted n) (h : view'.param n = view.param n) :
    view'.getParamTyped n = view.getParamTyped n := by
  simp only [View.param, Prod.mk.injEq] at h
  obtain ⟨hbool, hint64, hstring, harray, hnumber, hstruct⟩ := h
  rw [view'.getParamTyped_of_undotted hn, view.getParamTyped_of_undotted hn, hbool, hint64, hstring, harray, hnumber, hstruct]

/-- Neither the parameters nor the variable of the name have changed, and nothing has been staged for it. -/
structure Steady (n : String) (s t : Session D χ) : Prop where
  params : t.ctx.paramStores = s.ctx.paramStores
  cell : t.ctx.cell n = s.ctx.cell n
  unstaged : Unstaged n s → Unstaged n t

section
variable {n m : String} {s t u : Session D χ}

theorem Steady.refl (n : String) (s : Session D χ) : Steady n s s := ⟨rfl, rfl, id⟩

theorem Steady.trans (h : Steady n s t) (h' : Steady n t u) : Steady n s u :=
  ⟨h'.params.trans h.params, h'.cell.trans h.cell, fun hs => h'.unstaged (h.unstaged hs)⟩

theorem Steady.param (h : Steady n s t) : t.view.param n = s.view.param n := by
  have hparams : t.view.params = s.view.params := h.params
  have hcell : t.view.cell n = s.view.cell n := h.cell
  unfold View.param
  rw [hparams, hcell]

theorem Leaves.steady (h : Leaves n s t) (hcell : t.ctx.cell n = s.ctx.cell n) : Steady n s t :=
  ⟨h.params, hcell, h.unstaged⟩

theorem steady_foldl {α σ : Type} (session : σ → Session D χ) {step : σ → α → σ} (xs : List α)
    (hstep : ∀ x ∈ xs, ∀ s, Steady n (session s) (session (step s x))) (s : σ) :
    Steady n (session s) (session (xs.foldl step s)) := by
  induction xs generalizing s with
  | nil => exact Steady.refl n _
  | cons x xs ih =>
    exact (hstep x List.mem_cons_self s).trans (ih (fun y hy => hstep y (List.mem_cons_of_mem x hy)) (step s x))

theorem steady_assign {b : Binding D} (v : Value D) (s : Session D χ) (hb : b.name ≠ n) : Steady n s (assign b v s) :=
  (leaves_assign v s hb).steady (cell_assign_of_ne v s fun _ => hb.symm)

theorem steady_evalBindings (rt : Runtime D χ) {bs : List (Binding D)} (hbs : ∀ b ∈ bs, b.name ≠ n) (s : Session D χ) :
    Steady n s (evalBindings rt bs s).2 := by
  induction bs generalizing s with
  | nil => exact Steady.refl n s
  | cons b bs ih =>
    unfold evalBindings
    rcases rt.eval b.resultKind b.ast s.view s.effects with ⟨_ | v, eff⟩
    · exact ⟨rfl, rfl, fun _ x hx => by cases hx⟩
    · have hassign := steady_assign v { s with effects := eff } (hbs b List.mem_cons_self)
      have hrest := ih (fun b' hb' => hbs b' (List.mem_cons_of_mem b hb')) (assign b v { s with effects := eff })
      exact ⟨(hassign.trans hrest).params, (hassign.trans hrest).cell, (hassign.trans hrest).unstaged⟩

def Bare (n : String) (s : Session D χ) : Prop := ∃ struct, s.ctx.cell n = { struct := struct }

theorem Steady.bare (h : Steady n s t) (hs : Bare n s) : Bare n t := by
  obtain ⟨struct, hcell⟩ := hs
  exact ⟨struct, h.cell.trans hcell⟩

variable [Double D]

theorem steady_clampConstants (cs : List (Constant D)) (hs : Bare n s) : Steady n s (cs.foldl clampConstant s) := by
  induction cs generalizing s with
  | nil => exact Steady.refl n s
  | cons k cs ih =>
    have hk : Steady n s (clampConstant s k) := by
      refine (leaves_clampConstants [k] s).steady ?_
      show (clampConstant s k).ctx.cell n = _
      unfold clampConstant
      split
      · split
        · rfl
        · rename_i value hvalue
          have hne : n ≠ k.name := by
            rintro rfl
            obtain ⟨struct, hcell⟩ := hs
            rw [get_eq_none (by rw [hcell]; exact ⟨rfl, rfl⟩)] at hvalue
            cases hvalue
          exact Frame.cell_setValue_of_ne s.ctx (.number _) hne
      · rfl
    exact hk.trans (ih (hk.bare hs))

theorem steady_start (p : Program D) (hs : Bare n s) : Steady n s (clearCachedStructs (clampConstants p s)) :=
  (steady_clampConstants p.constants hs).trans ⟨rfl, rfl, id⟩

theorem steady_ready (rt : Runtime D χ) (p : Program D) (hs : Bare n s) (hunstaged : Unstaged n s) :
    Steady n s (ready rt p s) := by
  have hstart := steady_start p hs
  refine (leaves_ready rt p s hunstaged).steady ?_
  obtain ⟨hcell, -⟩ := agreeAt_commit (n := n) (clearCachedStructs (clampConstants p s)).pending
    (clearCachedStructs (clampConstants p s)) fun x hx heq => hstart.unstaged hunstaged x hx heq.symm
  exact hcell.trans hstart.cell

end

section
variable [DecidableEq β] {n : String} {layout : Layout}

theorem steady_write (rt : FusedRuntime D χ β) (use : SlotUse) (i : Nat) {m : String} (d : D) (s : Running D χ β) (hne : m ≠ n) :
    Steady n s.toSession (s.write rt use i m d).toSession := by
  refine (leaves_write rt use i m d s).steady ?_
  unfold Running.write
  split
  · show (slotSet s.ctx m d).cell n = _
    rw [cell_slotSet, if_neg hne.symm]
  · exact Frame.cell_setValue_of_ne s.ctx (.number d) hne.symm

theorem steady_commits (rt : FusedRuntime D χ β) (hcommits : ∀ c ∈ layout.commits, layout.stateName c ≠ n)
    (materialize : Bool) (s : Running D χ β) :
    Steady n s.toSession (layout.commits.zipIdx.foldl (commitFused rt layout materialize) s).toSession := by
  refine steady_foldl (·.toSession) _ (fun x hx s => ?_) s
  unfold commitFused
  split
  · exact Steady.refl n _
  · rename_i value _
    cases materialize with
    | false => exact ⟨rfl, rfl, id⟩
    | true =>
      have hname := hcommits x.1 (List.mem_of_getElem? (mem_zipIdx hx))
      exact steady_write rt .commit x.2 value { s with
        slots := Function.update s.slots x.1.stateSlot value
        staged := Function.update s.staged x.2 none } hname

variable [Double D]

theorem steady_exports (rt : FusedRuntime D χ β) {xs : List (SlotRef × Nat)} (hxs : ∀ x ∈ xs, x.1.name ≠ n)
    (s : Running D χ β) : Steady n s.toSession (xs.foldl (exportFused rt) s).toSession := by
  refine steady_foldl (·.toSession) xs (fun x hx s => ?_) s
  have hname := hxs x hx
  refine (leaves_exports rt [x] s).steady ?_
  show (exportFused rt s x).ctx.cell n = _
  unfold exportFused
  split
  · exact Frame.cell_setValue_of_ne s.ctx (.bool _) hname.symm
  · exact (steady_write rt .export_ x.2 _ s hname).cell

omit [DecidableEq β] in
theorem steady_refresh (p : Program D) (layout : Layout) (s : Running D χ β) :
    Steady n s.toSession (refreshOutputsFused p layout s).toSession := by
  unfold refreshOutputsFused
  split <;> exact ⟨rfl, rfl, id⟩

end

/-! ### What the evaluations of a tick see of a parameter -/

section
variable {n : String} [Double D]

omit [Double D] in
theorem evalViews_param (rt : Runtime D χ) {bs : List (Binding D)} (hbs : ∀ b ∈ bs, b.name ≠ n) (s : Session D χ) :
    ∀ view ∈ evalViews rt bs s, view.param n = s.view.param n := by
  induction bs generalizing s with
  | nil => exact List.forall_mem_nil _
  | cons b bs ih =>
    unfold evalViews
    refine List.forall_mem_cons.mpr ⟨rfl, ?_⟩
    rcases rt.eval b.resultKind b.ast s.view s.effects with ⟨_ | v, eff⟩
    · exact List.forall_mem_nil _
    · have hassign := steady_assign v { s with effects := eff } (hbs b List.mem_cons_self)
      intro view hview
      exact (ih (fun b' hb' => hbs b' (List.mem_cons_of_mem b hb')) _ view hview).trans hassign.param

omit [Double D] in
theorem captureViews_param (rt : Runtime D χ) (specs : List (HistorySpec D)) (s : Session D χ) :
    ∀ view ∈ captureViews rt specs s, view.param n = s.view.param n := by
  induction specs generalizing s with
  | nil => exact nofun
  | cons spec specs ih =>
    unfold captureViews
    split
    · intro view hview
      have hrest := ih _ view hview
      exact hrest
    · exact ih s
    · rename_i target _ _
      refine List.forall_mem_cons.mpr ⟨rfl, ?_⟩
      rcases rt.evalAst target s.view s.effects with ⟨_ | v, eff⟩
      · exact nofun
      · intro view hview
        have hrest := ih _ view hview
        exact hrest

theorem tickViews_param (rt : Runtime D χ) {p : Program D} (hbindings : ∀ b ∈ p.bindings, b.name ≠ n) {s : Session D χ}
    (hbare : Bare n s) (hunstaged : Unstaged n s) : ∀ view ∈ tickViews rt p s, view.param n = s.view.param n := by
  have hready := steady_ready rt p hbare hunstaged
  have heval := hready.trans (steady_evalBindings rt hbindings (ready rt p s))
  intro view hview
  rcases List.mem_append.mp hview with hview | hview
  · exact (evalViews_param rt hbindings _ view hview).trans hready.param
  · rcases hresult : evalBindings rt p.bindings (ready rt p s) with ⟨_ | err, t⟩
    · rw [hresult] at hview heval
      exact (captureViews_param rt p.historySpecs (refreshOutputs p t) view hview).trans heval.param
    · rw [hresult] at hview
      cases hview

theorem steady_tick (rt : Runtime D χ) {p : Program D} (hbindings : ∀ b ∈ p.bindings, b.name ≠ n) {s : Session D χ}
    (hbare : Bare n s) (hunstaged : Unstaged n s) : Steady n s (tick rt p s).2 := by
  obtain ⟨hctx, -⟩ := tick_keeps rt p s
  have heval := (steady_ready rt p hbare hunstaged).trans (steady_evalBindings rt hbindings (ready rt p s))
  exact (leaves_tick rt hbindings hunstaged).steady (by rw [hctx]; exact heval.cell)

variable [DecidableEq β] {layout : Layout} {p : Program D}

theorem steady_readInputs (rt : FusedRuntime D χ β) (hcommits : ∀ c ∈ layout.commits, layout.stateName c ≠ n)
    (materialize : Bool) (s : Running D χ β) :
    Steady n s.toSession (readInputs rt layout.inputs.zipIdx
      (layout.commits.zipIdx.foldl (commitFused rt layout materialize) s)).2.toSession := by
  rw [readInputs_session]
  exact steady_commits rt hcommits materialize s

theorem steady_outputs (rt : FusedRuntime D χ β) (hexports : ∀ r ∈ layout.exports, r.name ≠ n) (s : Running D χ β) :
    Steady n s.toSession (refreshOutputsFused p layout
      (layout.exports.zipIdx.foldl (exportFused rt) (stageFused layout s))).toSession := by
  have hxs : ∀ x ∈ layout.exports.zipIdx, x.1.name ≠ n := fun x hx => hexports x.1 (List.mem_of_getElem? (mem_zipIdx hx))
  have hstage : Steady n s.toSession (stageFused layout s).toSession := ⟨rfl, rfl, id⟩
  exact (hstage.trans (steady_exports rt hxs (stageFused layout s))).trans (steady_refresh p layout _)

theorem fusedViews_param (rt : FusedRuntime D χ β) (hcommits : ∀ c ∈ layout.commits, layout.stateName c ≠ n)
    (hexports : ∀ r ∈ layout.exports, r.name ≠ n) (materialize : Bool) (s : Running D χ β) :
    ∀ view ∈ fusedViews rt p layout materialize s, view.param n = s.view.param n := by
  have hread := steady_readInputs rt hcommits materialize s
  unfold fusedViews
  generalize readInputs rt layout.inputs.zipIdx _ = result at hread ⊢
  obtain ⟨_ | err, t⟩ := result
  · refine List.forall_mem_cons.mpr ⟨hread.param, ?_⟩
    rcases rt.execScalarFast t.view t.slots with ⟨_ | err, slots⟩
    · cases materialize with
      | false => exact nofun
      | true =>
        have houtputs := hread.trans (steady_outputs (p := p) rt hexports { t with slots := slots })
        exact fun view hview => (captureViews_param rt.toRuntime p.historySpecs _ view hview).trans houtputs.param
    · exact nofun
  · exact nofun

theorem steady_tickFused (rt : FusedRuntime D χ β) (hcommits : ∀ c ∈ layout.commits, layout.stateName c ≠ n)
    (hexports : ∀ r ∈ layout.exports, r.name ≠ n) (s : Running D χ β) :
    Steady n s.toSession (tickFused rt p layout true s).2.toSession := by
  refine (leaves_tickFused rt p layout true s).steady ?_
  have hkeeps : Keeps (· = n) s.toSession (tickFused rt p layout true s).2.toSession :=
    keeps_tickFused rt p hcommits hexports s
  exact hkeeps.cell n rfl

structure Compiled.Apart (c : Compiled D) (n : String) : Prop extends c.toProgram.NameApart n where
  inputs : ∀ m ∈ c.inputs, m ≠ n

omit [Double D] in
theorem Compiled.Apart.commits {c : Compiled D} (h : c.Apart n) (hlayout : c.fused = some layout) :
    ∀ x ∈ layout.commits, layout.stateName x ≠ n := by
  intro x hx
  obtain ⟨b, hb, -, hname⟩ := c.fused_commits layout hlayout x hx
  exact hname ▸ h.bindings b hb

omit [Double D] in
theorem Compiled.Apart.exports {c : Compiled D} (h : c.Apart n) (hlayout : c.fused = some layout) :
    ∀ r ∈ layout.exports, r.name ≠ n := by
  intro r hr
  obtain ⟨-, hexports⟩ := c.fused_exports layout hlayout
  rcases hexports r hr with hinput | ⟨b, hb, hname⟩ | ⟨st, hst, hname⟩
  · exact h.inputs r.name hinput
  · exact hname ▸ h.bindings b hb
  · exact hname ▸ h.states st hst

variable {c : Compiled D} {s : Running D χ β}

theorem Compiled.Apart.tick (h : c.Apart n) (rt : FusedRuntime D χ β) (hbare : Bare n s.toSession) (hunstaged : Unstaged n s.toSession) :
    Steady n s.toSession (c.tick rt s).2.toSession ∧ ∀ view ∈ c.tickViews rt s, view.param n = s.view.param n := by
  cases hfused : c.fused with
  | none =>
    rw [tick_plain hfused]
    unfold Compiled.tickViews
    rw [hfused]
    exact ⟨Model.steady_tick rt.toRuntime h.bindings hbare hunstaged,
      tickViews_param rt.toRuntime h.bindings hbare hunstaged⟩
  | some layout =>
    have hstart := steady_start c.toProgram hbare
    unfold Compiled.tick Compiled.tickViews
    rw [hfused]
    refine ⟨hstart.trans (steady_tickFused rt (h.commits hfused) (h.exports hfused)
      { s with toSession := clearCachedStructs (clampConstants c.toProgram s.toSession) }), fun view hview => ?_⟩
    exact (fusedViews_param rt (h.commits hfused) (h.exports hfused) true _ view hview).trans hstart.param

end

section
variable {n m : String} {s : Session D χ}

/-- A value that a parameter shows once it has been written. `cxpr_context_set_param_value` ignores a null, a timestamp and a
    duration, and leaves an int64 in front of a string, an array and a struct. -/
def Storable (f : Frame D) (n : String) : Value D → Prop
  | .null | .timestamp _ | .duration _ => False
  | .string _ | .array _ | .struct _ => f.int64Params.lookup n = none
  | _ => True

theorem getParamTyped_setParamValue {v : Value D} (hn : Undotted n) (hv : Storable s.ctx n v) :
    ({ s with ctx := s.ctx.setParamValue n v } : Session D χ).view.getParamTyped n = some v := by
  rw [View.getParamTyped_of_undotted _ hn]
  cases v <;>
    simp_all [Storable, Session.view, Frame.paramStores, Frame.cell, Frame.setParamValue, Frame.setParam, Frame.setParamBool,
      Frame.setParamInt64, Frame.setParamString]

theorem param_setParamValue_of_ne (v : Value D) (hne : n ≠ m) :
    ({ s with ctx := s.ctx.setParamValue m v } : Session D χ).view.param n = s.view.param n := by
  cases v <;>
    simp [View.param, Session.view, Frame.paramStores, Frame.cell, Frame.setParamValue, Frame.setParam, Frame.setParamBool,
      Frame.setParamInt64, Frame.setParamString, hne]

theorem bare_setParamValue (v : Value D) (h : Bare n s) :
    Bare n ({ s with ctx := s.ctx.setParamValue m v } : Session D χ) := by
  obtain ⟨struct, hcell⟩ := h
  obtain ⟨struct', hcell'⟩ := Frame.cell_setParamValue s.ctx m n v
  refine ⟨struct', ?_⟩
  show (s.ctx.setParamValue m v).cell n = _
  rw [hcell', hcell]

end

/-! ### The families that careful moves lead to -/

section
variable [Double D] {env : Nursery D χ β}

def ChildProgram.seat? (child : ChildProgram D) (i : Nat) (call : ChildCall D) : Option Seat :=
  match child.lifetime with
  | .singleton => some (.session i)
  | .scoped_ => some (.instance_ i call.cacheKey)
  | .transient => none

def Nursery.NamesApart (env : Nursery D χ β) : Prop :=
  ∀ child ∈ env.children, ∀ k ∈ child.program.constants, child.program.Apart k.name

/-- A call is made of a session that no open call uses, and has an argument for every parameter that another call of that
    session has written; the value of an argument is one that the parameter can show. -/
def Nursery.Careful (env : Nursery D χ β) (f : Family D χ β) : Move D → Prop
  | .enter i call => ∀ child seat, env.children[i]? = some child → child.seat? i call = some seat →
    (∀ o ∈ f.calls, o.place ≠ .seat seat) ∧ ∀ n, (seat, n) ∈ f.written →
      ∃ (j : Nat) (k : Constant D), child.program.constants[j]? = some k ∧ k.name = n ∧ child.callParamArg call j ≠ none
  | .param v => ∀ o child s k, f.calls.head? = some o → env.children[o.child]? = some child →
    f.session o.place = some s → child.program.constants[o.params]? = some k → Storable s.ctx k.name v
  | _ => True

def ChildProgram.Orderly (child : ChildProgram D) (s : Running D χ β) : Prop :=
  ∀ k ∈ child.program.constants, Bare k.name s.toSession ∧ Unstaged k.name s.toSession

structure Nursery.Serves (env : Nursery D χ β) (child : ChildProgram D) (o : OpenCall D χ β) (s : Running D χ β) : Prop where
  omitted : ∀ (i : Nat) (k : Constant D), child.program.constants[i]? = some k → child.callParamArg o.call i = none →
    s.view.getParamTyped k.name = env.default o.child k.name
  supplied : ∀ n v, o.supplied n = some v → s.view.getParamTyped n = some v
  passed : ∀ (i : Nat) (k : Constant D), child.program.constants[i]? = some k → i < o.params →
    child.callParamArg o.call i ≠ none → o.supplied k.name ≠ none
  only : ∀ n, o.supplied n ≠ none → ∃ (i : Nat) (k : Constant D), child.program.constants[i]? = some k ∧ k.name = n ∧
    i < o.params ∧ child.callParamArg o.call i ≠ none

structure Nursery.Kept (env : Nursery D χ β) (f : Family D χ β) : Prop where
  orderly : ∀ seat s child, f.seats seat = some s → env.children[seat.child]? = some child → child.Orderly s
  unwritten : ∀ seat s child, f.seats seat = some s → env.children[seat.child]? = some child →
    ∀ k ∈ child.program.constants, (seat, k.name) ∉ f.written →
      s.view.getParamTyped k.name = env.default seat.child k.name
  calls : ∀ o ∈ f.calls, ∀ child s, env.children[o.child]? = some child → f.session o.place = some s →
    child.Orderly s ∧ env.Serves child o s
  seated : ∀ o ∈ f.calls, ∀ seat, o.place = .seat seat → seat.child = o.child
  apart : f.calls.Pairwise fun o o' => ∀ seat, o.place = .seat seat → o'.place ≠ .seat seat

variable {s : Running D χ β}

theorem new_orderly (hnames : env.NamesApart) {i : Nat} {child : ChildProgram D}
    (hchild : env.children[i]? = some child) (hnew : env.sessionNew i = some s) : child.Orderly s := by
  intro k hk
  have hapart := hnames child (List.mem_of_getElem? hchild) k hk
  unfold Nursery.sessionNew at hnew
  rw [hchild, Option.bind_some] at hnew
  cases hresult : child.program.sessionNew (env.rt i) (env.grandchildren i) with
  | error err =>
    rw [hresult] at hnew
    cases hnew
  | ok s' =>
    rw [hresult] at hnew
    cases hnew
    exact ⟨new_cell hresult hapart.states, (follows_new hapart.toNameApart hresult).1⟩

theorem default_new {i : Nat} (hnew : env.sessionNew i = some s) (n : String) :
    s.view.getParamTyped n = env.default i n := by
  unfold Nursery.default
  rw [hnew]
  rfl

theorem serves_start {i : Nat} {call : ChildCall D} {child : ChildProgram D} {place : Place D χ β}
    (homitted : ∀ (j : Nat) (k : Constant D), child.program.constants[j]? = some k → child.callParamArg call j = none →
      s.view.getParamTyped k.name = env.default i k.name) :
    env.Serves child ⟨i, call, place, 0, 0, fun _ => none⟩ s :=
  ⟨homitted, nofun, nofun, fun _ h => absurd rfl h⟩

theorem kept_start (hnames : env.NamesApart) : env.Kept env.start := by
  refine ⟨fun seat s child hs hchild => ?_, fun seat s child hs hchild k _ _ => ?_, nofun, nofun, List.Pairwise.nil⟩
  · cases seat with
    | session i => exact new_orderly hnames hchild hs
    | instance_ i key => cases hs
  · cases seat with
    | session i => exact default_new hs k.name
    | instance_ i key => cases hs

section
variable {f g : Family D χ β} {o o' : OpenCall D χ β} {os : List (OpenCall D χ β)} {child : ChildProgram D}
  {s s' : Running D χ β}

theorem Nursery.Kept.pop (h : env.Kept f) : env.Kept { f with calls := f.calls.tail } :=
  ⟨h.orderly, h.unwritten, fun o ho => h.calls o (List.mem_of_mem_tail ho), fun o ho => h.seated o (List.mem_of_mem_tail ho),
    h.apart.tail⟩

theorem Nursery.Kept.note (h : env.Kept f) (place : Place D χ β) (n : String) : env.Kept (f.note place n) := by
  cases place with
  | own s => exact h
  | seat seat =>
    refine ⟨h.orderly, fun seat' s child hs hchild k hk hfree => ?_, h.calls, h.seated, h.apart⟩
    exact h.unwritten seat' s child hs hchild k hk fun hmem => hfree (List.mem_cons_of_mem _ hmem)

theorem Nursery.Kept.put (h : env.Kept f) (hcalls : f.calls = o :: os) (hplace : o'.place = o.place)
    (hchild' : o'.child = o.child) (horderly : child.Orderly s') (hchild : env.children[o.child]? = some child)
    (hserves : ∀ place, env.Serves child { o' with place := place } s')
    (hread : ∀ seat, o.place = .seat seat → ∀ k ∈ child.program.constants, (seat, k.name) ∉ f.written →
      s'.view.getParamTyped k.name = env.default seat.child k.name) : env.Kept (f.put o' s') := by
  have ho : o ∈ f.calls := hcalls ▸ List.mem_cons_self
  have hapart := h.apart
  rw [hcalls] at hapart
  obtain ⟨hfirst, hrest⟩ := List.pairwise_cons.mp hapart
  have htail : ∀ x ∈ os, x ∈ f.calls := fun x hx => hcalls ▸ List.mem_cons_of_mem o hx
  unfold Family.put
  rw [hplace, hcalls]
  cases hp : o.place with
  | own s₁ =>
    refine ⟨h.orderly, h.unwritten, ?_, ?_, ?_⟩
    · refine List.forall_mem_cons.mpr ⟨?_, fun x hx => h.calls x (htail x hx)⟩
      rintro child' t hc ⟨⟩
      rw [show ({ o' with place := .own s' } : OpenCall D χ β).child = o.child from hchild', hchild] at hc
      cases hc
      exact ⟨horderly, hserves _⟩
    · exact List.forall_mem_cons.mpr ⟨nofun, fun x hx => h.seated x (htail x hx)⟩
    · exact List.pairwise_cons.mpr ⟨fun _ _ _ => nofun, hrest⟩
  | seat seat =>
    have hseat : seat.child = o.child := h.seated o ho seat hp
    have hother : ∀ x ∈ os, x.place ≠ .seat seat := fun x hx => hfirst x hx seat hp
    have hplace' : o'.place = .seat seat := hplace.trans hp
    have hsession : ∀ x ∈ os, ∀ t, ({ f with seats := Function.update f.seats seat (some s') } : Family D χ β).session x.place =
        some t → f.session x.place = some t := by
      intro x hx t ht
      cases hx' : x.place with
      | own t' =>
        rw [hx'] at ht
        exact ht
      | seat seat' =>
        rw [hx'] at ht
        have hne : seat' ≠ seat := fun heq => hother x hx (heq ▸ hx')
        exact (Function.update_of_ne hne _ _).symm.trans ht
    refine ⟨fun seat' t child' ht hc => ?_, fun seat' t child' ht hc k hk hfree => ?_, ?_, ?_, ?_⟩
    · by_cases heq : seat' = seat
      · subst heq
        rw [hseat, hchild] at hc
        cases hc
        cases (Function.update_self seat' (some s') f.seats).symm.trans ht
        exact horderly
      · exact h.orderly seat' t child' ((Function.update_of_ne heq _ _).symm.trans ht) hc
    · by_cases heq : seat' = seat
      · subst heq
        rw [hseat, hchild] at hc
        cases hc
        cases (Function.update_self seat' (some s') f.seats).symm.trans ht
        exact hread seat' hp k hk hfree
      · exact h.unwritten seat' t child' ((Function.update_of_ne heq _ _).symm.trans ht) hc k hk hfree
    · refine List.forall_mem_cons.mpr ⟨fun child' t hc ht => ?_, fun x hx child' t hc ht => ?_⟩
      · rw [hchild', hchild] at hc
        cases hc
        rw [hplace'] at ht
        have hs' : Function.update f.seats seat (some s') seat = some t := ht
        rw [Function.update_self] at hs'
        cases hs'
        exact ⟨horderly, hserves o'.place⟩
      · exact h.calls x (htail x hx) child' t hc (hsession x hx t ht)
    · refine List.forall_mem_cons.mpr ⟨fun seat' heq => ?_, fun x hx => h.seated x (htail x hx)⟩
      rw [hplace'] at heq
      cases heq
      exact hseat.trans hchild'.symm
    · refine List.pairwise_cons.mpr ⟨fun x hx seat' heq => ?_, hrest⟩
      rw [hplace'] at heq
      cases heq
      exact hother x hx

variable {k : Constant D} {call : ChildCall D}

omit [Double D] in
theorem ChildProgram.index_eq (child : ChildProgram D) {i j : Nat} {k' : Constant D} (hi : child.program.constants[i]? = some k)
    (hj : child.program.constants[j]? = some k') (hname : k.name = k'.name) : i = j := by
  have hget : (child.program.constants.map (·.name))[i]? = (child.program.constants.map (·.name))[j]? := by
    rw [List.getElem?_map, List.getElem?_map, hi, hj, Option.map_some, Option.map_some, hname]
  refine (List.getElem?_inj ?_ child.constant_names).mp hget
  rw [List.length_map]
  exact (List.getElem?_eq_some_iff.mp hi).1

theorem seat?_child {i : Nat} {seat : Seat} (h : child.seat? i call = some seat) : seat.child = i := by
  unfold ChildProgram.seat? at h
  split at h <;> cases h <;> rfl

theorem Nursery.Kept.openSeat (h : env.Kept f) {i : Nat} {seat : Seat}
    (hchild : env.children[i]? = some child) (hseat : child.seat? i call = some seat) (hcareful : env.Careful f (.enter i call))
    (hs : f.seats seat = some s) :
    env.Kept { f with calls := ⟨i, call, .seat seat, 0, 0, fun _ => none⟩ :: f.calls } := by
  have hi := seat?_child hseat
  obtain ⟨hfree, hwritten⟩ := hcareful child seat hchild hseat
  refine ⟨h.orderly, h.unwritten, ?_, ?_, List.pairwise_cons.mpr ⟨?_, h.apart⟩⟩
  · refine List.forall_mem_cons.mpr ⟨fun child' t hc ht => ?_, h.calls⟩
    cases hchild.symm.trans hc
    cases hs.symm.trans ht
    have hseat' : env.children[seat.child]? = some child := by rw [hi, hchild]
    refine ⟨h.orderly seat s child hs hseat', serves_start fun j k hk homit => ?_⟩
    rw [← hi]
    refine h.unwritten seat s child hs hseat' k (List.mem_of_getElem? hk) fun hmem => ?_
    obtain ⟨j', k', hk', hname, harg⟩ := hwritten k.name hmem
    exact harg (child.index_eq hk' hk hname ▸ homit)
  · refine List.forall_mem_cons.mpr ⟨fun seat' heq => ?_, h.seated⟩
    cases heq
    exact hi
  · rintro o ho seat' ⟨⟩
    exact hfree o ho

theorem Nursery.Kept.openOwn (h : env.Kept f) (hnames : env.NamesApart) {i : Nat} (call : ChildCall D)
    (hnew : env.sessionNew i = some s) :
    env.Kept { f with calls := ⟨i, call, .own s, 0, 0, fun _ => none⟩ :: f.calls } := by
  refine ⟨h.orderly, h.unwritten, ?_, List.forall_mem_cons.mpr ⟨nofun, h.seated⟩, List.pairwise_cons.mpr ⟨fun _ _ _ => nofun, h.apart⟩⟩
  refine List.forall_mem_cons.mpr ⟨?_, h.calls⟩
  rintro child t hchild ⟨⟩
  exact ⟨new_orderly hnames hchild hnew, serves_start fun _ k _ _ => default_new hnew k.name⟩

theorem Nursery.Kept.seat (h : env.Kept f) (hnames : env.NamesApart) {seat : Seat} (hfree : ∀ o ∈ f.calls, o.place ≠ .seat seat)
    (hnew : env.sessionNew seat.child = some s) : env.Kept { f with seats := Function.update f.seats seat (some s) } := by
  have hseats : ∀ seat' t, Function.update f.seats seat (some s) seat' = some t →
      f.seats seat' = some t ∨ seat' = seat ∧ env.sessionNew seat'.child = some t := by
    intro seat' t ht
    by_cases heq : seat' = seat
    · subst heq
      rw [Function.update_self] at ht
      cases ht
      exact Or.inr ⟨rfl, hnew⟩
    · rw [Function.update_of_ne heq] at ht
      exact Or.inl ht
  refine ⟨fun seat' t child ht hchild => ?_, fun seat' t child ht hchild k hk hfree => ?_, fun o ho child t hchild ht => ?_,
    h.seated, h.apart⟩
  · rcases hseats seat' t ht with ht | ⟨-, ht⟩
    · exact h.orderly seat' t child ht hchild
    · exact new_orderly hnames hchild ht
  · rcases hseats seat' t ht with ht | ⟨-, ht⟩
    · exact h.unwritten seat' t child ht hchild k hk hfree
    · exact default_new ht k.name
  · refine h.calls o ho child t hchild ?_
    cases hplace : o.place with
    | own t' =>
      rw [hplace] at ht
      exact ht
    | seat seat' =>
      rw [hplace] at ht
      refine (hseats seat' t ht).resolve_right fun heq => ?_
      exact hfree o ho (heq.1 ▸ hplace)

theorem Nursery.Kept.enter (h : env.Kept f) (hnames : env.NamesApart) {i : Nat}
    (hcareful : env.Careful f (.enter i call)) (hstep : env.enter f i call = some g) : env.Kept g := by
  unfold Nursery.enter at hstep
  cases hchild : env.children[i]? with
  | none =>
    rw [hchild] at hstep
    cases hstep
  | some child =>
    rw [hchild] at hstep
    simp only [Option.map_some] at hstep
    cases hlifetime : child.lifetime with
    | singleton =>
      have hseat : child.seat? i call = some (.session i) := by
        unfold ChildProgram.seat?
        rw [hlifetime]
      rw [hlifetime] at hstep
      obtain ⟨s, hs, rfl⟩ := Option.map_eq_some_iff.mp hstep
      exact h.openSeat hchild hseat hcareful hs
    | transient =>
      rw [hlifetime] at hstep
      obtain ⟨s, hs, rfl⟩ := Option.map_eq_some_iff.mp hstep
      exact h.openOwn hnames call hs
    | scoped_ =>
      have hseat : child.seat? i call = some (.instance_ i call.cacheKey) := by
        unfold ChildProgram.seat?
        rw [hlifetime]
      rw [hlifetime] at hstep
      simp only at hstep
      cases hs : f.seats (.instance_ i call.cacheKey) with
      | some s =>
        rw [hs] at hstep
        cases hstep
        exact h.openSeat hchild hseat hcareful hs
      | none =>
        rw [hs] at hstep
        obtain ⟨s, hnew, rfl⟩ := Option.map_eq_some_iff.mp hstep
        obtain ⟨hfree, -⟩ := hcareful child _ hchild hseat
        exact (h.seat hnames hfree hnew).openSeat hchild hseat hcareful (Function.update_self _ _ _)

omit [Double D] in
theorem ChildProgram.Orderly.steady (h : child.Orderly s)
    (hsteady : ∀ k ∈ child.program.constants, Steady k.name s.toSession s'.toSession) : child.Orderly s' :=
  fun k hk => ⟨(hsteady k hk).bare (h k hk).1, (hsteady k hk).unstaged (h k hk).2⟩

theorem Nursery.Serves.steady (h : env.Serves child o s) (hundotted : ∀ k ∈ child.program.constants, Undotted k.name)
    (hsteady : ∀ k ∈ child.program.constants, Steady k.name s.toSession s'.toSession) : env.Serves child o s' := by
  have hread : ∀ k ∈ child.program.constants, s'.view.getParamTyped k.name = s.view.getParamTyped k.name :=
    fun k hk => getParamTyped_congr (hundotted k hk) (hsteady k hk).param
  refine ⟨fun i k hk homit => ?_, fun n v hv => ?_, h.passed, h.only⟩
  · rw [hread k (List.mem_of_getElem? hk), h.omitted i k hk homit]
  · obtain ⟨i, k, hk, rfl, -⟩ := h.only n (by rw [hv]; nofun)
    rw [hread k (List.mem_of_getElem? hk), h.supplied k.name v hv]

theorem Nursery.Kept.putSteady (h : env.Kept f) (hnames : env.NamesApart) (hcalls : f.calls = o :: os)
    (hchild : env.children[o.child]? = some child) (hs : f.session o.place = some s) (hplace : o'.place = o.place)
    (hchild' : o'.child = o.child) (hsteady : ∀ k ∈ child.program.constants, Steady k.name s.toSession s'.toSession)
    (hserves : env.Serves child o s' → env.Serves child o' s') : env.Kept (f.put o' s') := by
  have ho : o ∈ f.calls := hcalls ▸ List.mem_cons_self
  have hundotted : ∀ k ∈ child.program.constants, Undotted k.name :=
    fun k hk => (hnames child (List.mem_of_getElem? hchild) k hk).undotted
  obtain ⟨horderly, hserves₀⟩ := h.calls o ho child s hchild hs
  obtain ⟨homitted, hsupplied, hpassed, honly⟩ := hserves (hserves₀.steady hundotted hsteady)
  refine h.put hcalls hplace hchild' (horderly.steady hsteady) hchild (fun _ => ⟨homitted, hsupplied, hpassed, honly⟩) ?_
  intro seat hseat k hk hfree
  rw [hseat] at hs
  have hchild₀ : env.children[seat.child]? = some child := by rw [h.seated o ho seat hseat, hchild]
  rw [getParamTyped_congr (hundotted k hk) (hsteady k hk).param]
  exact h.unwritten seat s child hs hchild₀ k hk hfree

theorem Nursery.Serves.param (h : env.Serves child o s) (hundotted : ∀ k ∈ child.program.constants, Undotted k.name) {v : Value D} (hk : child.program.constants[o.params]? = some k)
    (harg : child.callParamArg o.call o.params ≠ none) (hself : s'.view.getParamTyped k.name = some v)
    (hother : ∀ n, Undotted n → n ≠ k.name → s'.view.getParamTyped n = s.view.getParamTyped n) :
    env.Serves child { o with params := o.params + 1, supplied := Function.update o.supplied k.name (some v) } s' := by
  refine ⟨fun i k' hk' homit => ?_, fun n v' hv => ?_, fun i k' hk' hi harg' => ?_, fun n hn => ?_⟩
  · have hne : k'.name ≠ k.name := fun heq => harg (child.index_eq hk' hk heq ▸ homit)
    rw [hother k'.name (hundotted k' (List.mem_of_getElem? hk')) hne]
    exact h.omitted i k' hk' homit
  · have hv' : Function.update o.supplied k.name (some v) n = some v' := hv
    by_cases hn : n = k.name
    · rw [hn, Function.update_self] at hv'
      rw [hn, hself, hv']
    · rw [Function.update_of_ne hn] at hv'
      obtain ⟨i, k', hk', rfl, -⟩ := h.only n (by rw [hv']; nofun)
      rw [hother k'.name (hundotted k' (List.mem_of_getElem? hk')) hn]
      exact h.supplied _ v' hv'
  · show Function.update o.supplied k.name (some v) k'.name ≠ none
    by_cases hn : k'.name = k.name
    · rw [hn, Function.update_self]
      nofun
    · rw [Function.update_of_ne hn]
      refine h.passed i k' hk' (Nat.lt_of_le_of_ne (Nat.le_of_lt_succ hi) fun heq => hn ?_) harg'
      rw [heq, hk] at hk'
      cases hk'
      rfl
  · by_cases heq : n = k.name
    · exact ⟨o.params, k, hk, heq.symm, Nat.lt_succ_self _, harg⟩
    · obtain ⟨i, k', hk', hname, hi, harg'⟩ := h.only n fun hnone => hn ((Function.update_of_ne heq _ _).trans hnone)
      exact ⟨i, k', hk', hname, Nat.lt_succ_of_lt hi, harg'⟩

theorem Nursery.Kept.putParam (h : env.Kept f) (hnames : env.NamesApart) (hcalls : f.calls = o :: os)
    (hchild : env.children[o.child]? = some child) (hs : f.session o.place = some s) {v : Value D}
    (hk : child.program.constants[o.params]? = some k) (harg : child.callParamArg o.call o.params ≠ none)
    (hv : Storable s.ctx k.name v) :
    env.Kept ((f.note o.place k.name).put
      { o with params := o.params + 1, supplied := Function.update o.supplied k.name (some v) }
      { s with ctx := s.ctx.setParamValue k.name v }) := by
  have ho : o ∈ f.calls := hcalls ▸ List.mem_cons_self
  have hundotted : ∀ k ∈ child.program.constants, Undotted k.name :=
    fun k hk => (hnames child (List.mem_of_getElem? hchild) k hk).undotted
  obtain ⟨horderly, hserves⟩ := h.calls o ho child s hchild hs
  let s' : Running D χ β := { s with ctx := s.ctx.setParamValue k.name v }
  have hself : s'.view.getParamTyped k.name = some v :=
    getParamTyped_setParamValue (hundotted k (List.mem_of_getElem? hk)) hv
  have hother : ∀ n, Undotted n → n ≠ k.name → s'.view.getParamTyped n = s.view.getParamTyped n :=
    fun n hn hne => getParamTyped_congr hn (param_setParamValue_of_ne v hne)
  obtain ⟨homitted, hsupplied, hpassed, honly⟩ := hserves.param hundotted hk harg hself hother
  have horderly' : child.Orderly s' :=
    fun k' hk' => ⟨bare_setParamValue v (horderly k' hk').1, (horderly k' hk').2⟩
  have hcalls' : (f.note o.place k.name).calls = o :: os := by
    unfold Family.note
    split <;> exact hcalls
  refine (h.note o.place k.name).put hcalls' rfl rfl horderly' hchild (fun _ => ⟨homitted, hsupplied, hpassed, honly⟩) ?_
  intro seat hseat k' hk' hfree
  have hchild₀ : env.children[seat.child]? = some child := by rw [h.seated o ho seat hseat, hchild]
  rw [hseat] at hs hfree
  have hne : k'.name ≠ k.name := fun heq => hfree (heq ▸ List.mem_cons_self)
  rw [hother k'.name (hundotted k' hk') hne]
  exact h.unwritten seat s child hs hchild₀ k' hk' fun hmem => hfree (List.mem_cons_of_mem _ hmem)

variable [DecidableEq β]

theorem step_cases {move : Move D} (h : env.step f move = some g) :
    (∃ i call, move = .enter i call ∧ env.enter f i call = some g) ∨
    ∃ o os child s, f.calls = o :: os ∧ env.children[o.child]? = some child ∧ f.session o.place = some s ∧
      ((∃ v n, move = .input v ∧ child.program.inputs[o.inputs]? = some n ∧
          g = f.put { o with inputs := o.inputs + 1 } { s with ctx := s.ctx.setValue n v }) ∨
        (∃ v k, move = .param v ∧ child.program.constants[o.params]? = some k ∧
          child.callParamArg o.call o.params ≠ none ∧ g = (f.note o.place k.name).put
            { o with params := o.params + 1, supplied := Function.update o.supplied k.name (some v) }
            { s with ctx := s.ctx.setParamValue k.name v }) ∨
        (move = .skip ∧ child.callParamArg o.call o.params = none ∧ g = f.put { o with params := o.params + 1 } s) ∨
        (move = .fail ∧ g = { f with calls := f.calls.tail }) ∨
        (move = .tick ∧ o.params = child.program.constants.length ∧
          g = { f.put o (child.program.tick (env.rt o.child) s).2 with
            calls := (f.put o (child.program.tick (env.rt o.child) s).2).calls.tail })) := by
  unfold Nursery.step at h
  split at h
  · exact Or.inl ⟨_, _, rfl, h⟩
  split at h
  · cases h
  rename_i o os hcalls
  split at h
  · rename_i child s hchild hs
    refine Or.inr ⟨o, os, child, s, hcalls, hchild, hs, ?_⟩
    unfold Nursery.act at h
    split at h
    · cases h
    · obtain ⟨n, hn, rfl⟩ := Option.map_eq_some_iff.mp h
      exact Or.inl ⟨_, n, rfl, hn, rfl⟩
    · split at h
      · rename_i hready
        obtain ⟨k, hk, rfl⟩ := Option.map_eq_some_iff.mp h
        exact Or.inr (Or.inl ⟨_, k, rfl, hk, hready.2, rfl⟩)
      · cases h
    · split at h
      · rename_i hready
        cases h
        exact Or.inr (Or.inr (Or.inl ⟨rfl, hready.2.2, rfl⟩))
      · cases h
    · cases h
      exact Or.inr (Or.inr (Or.inr (Or.inl ⟨rfl, rfl⟩)))
    · split at h
      · rename_i hready
        cases h
        exact Or.inr (Or.inr (Or.inr (Or.inr ⟨rfl, hready.2, rfl⟩)))
      · cases h
  · cases h

theorem Nursery.Kept.step (h : env.Kept f) (hnames : env.NamesApart) {move : Move D} (hcareful : env.Careful f move)
    (hstep : env.step f move = some g) : env.Kept g := by
  rcases step_cases hstep with ⟨i, call, rfl, henter⟩ | ⟨o, os, child, s, hcalls, hchild, hs, hmove⟩
  · exact h.enter hnames hcareful henter
  have ho : o ∈ f.calls := hcalls ▸ List.mem_cons_self
  have hapart := hnames child (List.mem_of_getElem? hchild)
  obtain ⟨horderly, -⟩ := h.calls o ho child s hchild hs
  rcases hmove with ⟨v, n, rfl, hn, rfl⟩ | ⟨v, k, rfl, hk, harg, rfl⟩ | ⟨rfl, hskip, rfl⟩ | ⟨rfl, rfl⟩ | ⟨rfl, -, rfl⟩
  · refine h.putSteady hnames hcalls hchild hs rfl rfl (fun k hk => ?_) fun hserves => ?_
    · have hne : k.name ≠ n := ((hapart k hk).inputs n (List.mem_of_getElem? hn)).symm
      exact ⟨Frame.paramStores_setValue s.ctx n v, Frame.cell_setValue_of_ne s.ctx v hne, id⟩
    · exact ⟨hserves.omitted, hserves.supplied, hserves.passed, hserves.only⟩
  · refine h.putParam hnames hcalls hchild hs hk harg (hcareful o child s k ?_ hchild hs hk)
    rw [hcalls]
    rfl
  · refine h.putSteady hnames hcalls hchild hs rfl rfl (fun k _ => Steady.refl k.name _) fun hserves => ?_
    refine ⟨hserves.omitted, hserves.supplied, fun i k hk hi harg => ?_, fun n hn => ?_⟩
    · refine hserves.passed i k hk (Nat.lt_of_le_of_ne (Nat.le_of_lt_succ hi) ?_) harg
      rintro rfl
      exact harg hskip
    · obtain ⟨i, k, hk, hname, hi, harg⟩ := hserves.only n hn
      exact ⟨i, k, hk, hname, Nat.lt_succ_of_lt hi, harg⟩
  · exact h.pop
  · refine (h.putSteady hnames hcalls hchild hs rfl rfl (fun k hk => ?_) id).pop
    obtain ⟨hbare, hunstaged⟩ := horderly k hk
    exact ((hapart k hk).tick _ hbare hunstaged).1

theorem Nursery.Reached.kept (hnames : env.NamesApart) (h : env.Reached env.Careful f) : env.Kept f := by
  induction h with
  | start => exact kept_start hnames
  | step move _ hcareful hstep ih => exact ih.step hnames hcareful hstep

end

end

/-- The child `gauge`, which has the parameter `$x = 5`, as a singleton. -/
def gauges : Nursery Int Unit Unit where
  children := [⟨gauge, .singleton, fun _ => false, none, by decide⟩]
  rt _ := gaugeRuntime
  grandchildren _ := ()

def gaugeCall (n : Int) : ChildCall Int := ⟨"gauge", [.number n], []⟩

theorem gauges_apart : gauges.NamesApart := by
  refine List.forall_mem_singleton.mpr (List.forall_mem_singleton.mpr ?_)
  exact ⟨⟨undotted_x, by decide, nofun⟩, nofun⟩

end Cxpr.Model
