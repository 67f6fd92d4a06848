import Cxpr.Model.Session

/-! Programs with fused IR. Their bindings are one piece of code over numbered slots: a tick moves the staged updates into
    the slots of the states, the inputs into theirs, runs the code, and writes the outputs back to the context. -/

namespace Cxpr.Model
variable {D χ β : Type}

structure SlotRef where
  name : String
  slot : Nat
  resultKind : ResultKind

structure StateCommit where
  stateSlot : Nat
  updateSlot : Nat

structure Layout where
  slotNames : List String
  inputs : List SlotRef
  commits : List StateCommit
  exports : List SlotRef
  outputs : List SlotRef

def Layout.stateName (layout : Layout) (c : StateCommit) : String := layout.slotNames.getD c.stateSlot ""

/-- A `cxpr_model_compiled`, with its layout if it has fused IR and slots, as `cxpr_model_try_compile_fused_ir` makes it. -/
structure Compiled (D : Type) extends Program D where
  fused : Option Layout
  fused_inputs : ∀ layout, fused = some layout → layout.inputs.map (·.name) = inputs
  fused_commits : ∀ layout, fused = some layout → ∀ c ∈ layout.commits,
    ∃ b ∈ bindings, b.kind = .stateUpdate ∧ b.name = layout.stateName c
  fused_exports : ∀ layout, fused = some layout → (layout.exports.map (·.name)).Nodup ∧ ∀ r ∈ layout.exports,
    r.name ∈ inputs ∨ (∃ b ∈ bindings, b.name = r.name) ∨ ∃ st ∈ stateDefaults, st.name = r.name

/-! ### Sessions -/

inductive SlotUse where
  | commit | input | export_
deriving DecidableEq, Repr

/-- A `cxpr_model_session` with its fused part. A bound entry is kept with the base of the table it was found in. -/
structure Running (D χ β : Type) extends Session D χ where
  slots : Nat → D
  staged : Nat → Option D
  bound : SlotUse → Nat → Option β

/-- What fused ticks use: the executor of the code, the base of the variable table of a context, and the double that the
    union of a value of another type shows. -/
structure FusedRuntime (D χ β : Type) extends Runtime D χ where
  execScalarFast : View D → (Nat → D) → Option Error × (Nat → D)
  variablesBase : Frame D → β
  payload : Value D → D

/-- `cxpr_context_slot_set`: the entry gets the value, and no other store is touched. -/
def slotSet (f : Frame D) (name : String) (value : D) : Frame D := { f with vars := f.vars.insert name value }

def Running.bind (s : Running D χ β) (use : SlotUse) (i : Nat) (base : Option β) : Running D χ β :=
  { s with bound := fun use' j => if use' = use ∧ j = i then base else s.bound use' j }

section
variable [DecidableEq β]

def Running.write (rt : FusedRuntime D χ β) (use : SlotUse) (i : Nat) (name : String) (value : D) (s : Running D χ β) :
    Running D χ β :=
  if s.bound use i = some (rt.variablesBase s.ctx) then { s with ctx := slotSet s.ctx name value }
  else { s with ctx := s.ctx.set name value }.bind use i (some (rt.variablesBase (s.ctx.set name value)))

/-- One turn of the loop of `cxpr_model_session_tick_fused` over the commits. -/
def commitFused (rt : FusedRuntime D χ β) (layout : Layout) (materializeContext : Bool) (s : Running D χ β)
    (x : StateCommit × Nat) : Running D χ β :=
  match s.staged x.2 with
  | none => s
  | some value =>
    let s := { s with
      slots := Function.update s.slots x.1.stateSlot value
      staged := Function.update s.staged x.2 none }
    if materializeContext then s.write rt .commit x.2 (layout.stateName x.1) value else s

variable [Double D]

def scalarInput (rt : FusedRuntime D χ β) : Value D → D
  | .number d => d
  | .bool b => Double.ofBool b
  | v => rt.payload v

/-- One turn of the loop of `cxpr_model_session_tick_fused` over the inputs; `none` is a missing input. -/
def readInput (rt : FusedRuntime D χ β) (s : Running D χ β) (x : SlotRef × Nat) : Option (Running D χ β) :=
  if s.bound .input x.2 = some (rt.variablesBase s.ctx) then
    some { s with slots := Function.update s.slots x.1.slot ((s.ctx.cell x.1.name).var.getD Double.zero) }
  else
    match s.historyValue x.1.name with
    | none => none
    | some v =>
      some ({ s with slots := Function.update s.slots x.1.slot (scalarInput rt v) }.bind .input x.2
        (if (s.ctx.cell x.1.name).var.isSome then some (rt.variablesBase s.ctx) else none))

/-- The loop of `cxpr_model_session_tick_fused` over the inputs. -/
def readInputs (rt : FusedRuntime D χ β) : List (SlotRef × Nat) → Running D χ β → Option Error × Running D χ β
  | [], s => (none, s)
  | x :: xs, s =>
    match readInput rt s x with
    | none => (some ⟨.unknownIdentifier, "Missing model input"⟩, s)
    | some s => readInputs rt xs s

def runFused (rt : FusedRuntime D χ β) (layout : Layout) (materializeContext : Bool) (s : Running D χ β) :
    Option Error × Running D χ β :=
  match readInputs rt layout.inputs.zipIdx (layout.commits.zipIdx.foldl (commitFused rt layout materializeContext) s) with
  | (some err, s) => (some err, s)
  | (none, s) =>
    let (result, slots) := rt.execScalarFast s.view s.slots
    (result, { s with slots := slots })

omit [DecidableEq β] [Double D] in
def stageFused (layout : Layout) (s : Running D χ β) : Running D χ β :=
  { s with staged := fun i => match layout.commits[i]? with | some c => some (s.slots c.updateSlot) | none => s.staged i }

/-- One turn of the loop of `cxpr_model_session_tick_fused` over the exports. -/
def exportFused (rt : FusedRuntime D χ β) (s : Running D χ β) (x : SlotRef × Nat) : Running D χ β :=
  if x.1.resultKind = .bool then
    { s with ctx := s.ctx.setBool x.1.name (Double.ne (s.slots x.1.slot) Double.zero) }
  else s.write rt .export_ x.2 x.1.name (s.slots x.1.slot)

omit [DecidableEq β] [Double D] in
def fusedValue (layout : Layout) (s : Running D χ β) (slot : Nat) : D :=
  (layout.commits.zipIdx.findSome? fun x => if x.1.stateSlot = slot then s.staged x.2 else none).getD (s.slots slot)

omit [DecidableEq β] in
/-- One turn of `cxpr_model_session_refresh_outputs_fused`. -/
def fusedOutput (layout : Layout) (s : Running D χ β) (r : SlotRef) (o : OutputState D) : OutputState D :=
  if r.resultKind = .bool then o.setBool (Double.ne (fusedValue layout s r.slot) Double.zero)
  else o.setNumber (fusedValue layout s r.slot)

omit [DecidableEq β] in
/-- `cxpr_model_session_refresh_outputs_fused`. -/
def refreshOutputsFused (p : Program D) (layout : Layout) (s : Running D χ β) : Running D χ β :=
  if layout.outputs.length = s.outputs.length then
    { s with outputs := List.zipWith (fusedOutput layout s) layout.outputs s.outputs }
  else { s with toSession := refreshOutputs p s.toSession }

def finishFused (rt : FusedRuntime D χ β) (p : Program D) (layout : Layout) (materializeContext : Bool)
    (s : Running D χ β) : Option Error × Running D χ β :=
  if materializeContext then
    let s := refreshOutputsFused p layout (layout.exports.zipIdx.foldl (exportFused rt) (stageFused layout s))
    match captureHistory rt.toRuntime p.historySpecs s.toSession with
    | (some _, t) => (some ⟨.outOfMemory, "Out of memory"⟩, { s with toSession := t })
    | (none, t) => (none, { s with toSession := t })
  else (none, refreshOutputsFused p layout (stageFused layout s))

def tickFused (rt : FusedRuntime D χ β) (p : Program D) (layout : Layout) (materializeContext : Bool)
    (s : Running D χ β) : Option Error × Running D χ β :=
  match runFused rt layout materializeContext s with
  | (some err, s) => (some err, s)
  | (none, s) => finishFused rt p layout materializeContext s

def Compiled.tick (rt : FusedRuntime D χ β) (c : Compiled D) (s : Running D χ β) : Option Error × Running D χ β :=
  match c.fused with
  | none =>
    let (result, t) := Model.tick rt.toRuntime c.toProgram s.toSession
    (result, { s with toSession := t })
  | some layout =>
    tickFused rt c.toProgram layout true
      { s with toSession := clearCachedStructs (clampConstants c.toProgram s.toSession) }

def Compiled.tickFast (rt : FusedRuntime D χ β) (c : Compiled D) (s : Running D χ β) : Option Error × Running D χ β :=
  match c.fused with
  | none => c.tick rt s
  | some layout =>
    if 0 < s.histories.length then c.tick rt s else tickFused rt c.toProgram layout false s

omit [DecidableEq β] in
def Compiled.sessionNew (rt : FusedRuntime D χ β) (c : Compiled D) (children : χ) : Except Error (Running D χ β) := do
  let (s, _) ← Model.sessionNew rt.toRuntime c.toProgram children
  let names := (c.fused.map (·.slotNames)).getD []
  return {
    toSession := s
    slots := fun i => ((names[i]?).bind s.get).getD Double.zero
    staged := fun _ => none
    bound := fun _ _ => none }

end
end Cxpr.Model
