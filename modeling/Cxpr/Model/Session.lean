import Cxpr.Lib.SampleRing
import Cxpr.Model.Cells

/-! Sessions of a compiled model (`src/model/session.c`): a tick commits the state updates of the tick before it,
    evaluates the bindings in their order and stages the new updates. What an expression evaluates to is given by the
    runtime; it depends on what the context, the histories and the state buffers hold, and it can change nothing but
    the structs cached for the tick and the child sessions. -/

namespace Cxpr.Model
variable {D χ : Type}

inductive ResultKind where
  | unknown | number | bool | int64
deriving DecidableEq, Repr

/-- The kinds of bindings a program evaluates; a local one is evaluated as any other expression. -/
inductive BindingKind where
  | expr | stateUpdate
deriving DecidableEq, Repr

/-- The part of a `cxpr_model_compiled_binding` that a tick reads of an executable binding. -/
structure Binding (D : Type) where
  name : String
  kind : BindingKind
  resultKind : ResultKind
  /-- Whether the declared type is a buffer. -/
  buffer : Bool
  ast : Ast D

/-- A state with its default, or with the number of samples of a buffer, which has none. -/
structure StateDefault (D : Type) where
  name : String
  resultKind : ResultKind
  initial : Ast D ⊕ Nat

structure Constant (D : Type) where
  name : String
  ast : Ast D
  minValue : Option D
  maxValue : Option D

structure HistorySpec (D : Type) where
  name : String
  target : Option (Ast D)
  depth : Nat

/-- A `cxpr_model_compiled` without fused IR, with what `cxpr_model_validate_symbols` has checked of it. -/
structure Program (D : Type) where
  constants : List (Constant D)
  stateDefaults : List (StateDefault D)
  bindings : List (Binding D)
  inputs : List String
  outputs : List String
  historySpecs : List (HistorySpec D)
  binding_names : (bindings.map (·.name)).Nodup
  state_names : (stateDefaults.map (·.name)).Nodup
  input_free : ∀ b ∈ bindings, b.name ∉ inputs
  update_known : ∀ b ∈ bindings, b.kind = .stateUpdate →
    ∃ st ∈ stateDefaults, st.name = b.name ∧ st.initial.isRight = b.buffer
  expr_free : ∀ b ∈ bindings, b.kind = .expr → ∀ st ∈ stateDefaults, st.name ≠ b.name

/-! ### Sessions -/

structure OutputState (D : Type) where
  numberCurrent : D
  numberPrevious : D
  previous : Bool := false
  current : Bool := false
  hasNumberCurrent : Bool := false
  hasNumberPrevious : Bool := false
  int64Current : Int64 := 0
  int64Previous : Int64 := 0
  hasInt64Current : Bool := false
  hasInt64Previous : Bool := false
  hasPrevious : Bool := false
  hasCurrent : Bool := false

structure HistoryEntry (D : Type) where
  name : String
  ring : SampleRing (Value D)

/-- What an evaluation can change: the structs cached for the tick, by their key, and the child sessions. -/
structure Effects (D χ : Type) where
  cached : String → Option (List (String × Value D))
  children : χ

/-- `cxpr_model_session`. Its context has no parent and no expression scope; its cached structs are in `effects`. -/
structure Session (D χ : Type) where
  ctx : Frame D
  effects : Effects D χ
  outputs : List (OutputState D)
  histories : List (HistoryEntry D)
  stateBuffers : List (HistoryEntry D)
  pending : List (Binding D × Value D)

structure View (D : Type) where
  cell : String → Cell D
  params : Params D
  histories : List (HistoryEntry D)
  stateBuffers : List (HistoryEntry D)

def Session.view (s : Session D χ) : View D := ⟨s.ctx.cell, s.ctx.paramStores, s.histories, s.stateBuffers⟩

structure Runtime (D χ : Type) where
  evalAst : Ast D → View D → Effects D χ → Except Error (Value D) × Effects D χ
  evalAstNumber : Ast D → View D → Effects D χ → Except Error D × Effects D χ
  nan : D

/-- `cxpr_context_get_typed` on the context of a session. -/
def Session.getTyped (s : Session D χ) (name : String) : Option (Value D) :=
  (s.ctx.cell name).read <|> (s.effects.cached name).map .struct

section
variable [Double D]

/-- `cxpr_context_get` on the context of a session. -/
def Session.get (s : Session D χ) (name : String) : Option D :=
  match s.getTyped name with
  | some (.number d) => some d
  | some (.bool b) => some (Double.ofBool b)
  | _ => none

/-- `cxpr_context_get_field` on the context of a session. -/
def Session.getField (s : Session D χ) (name field : String) : Option (Value D) :=
  match (s.ctx.cell name).struct with
  | some fields => structGetField fields field
  | none =>
    match s.getTyped name with
    | some (.struct fields) => structGetField fields field
    | _ => none

def Session.historyValue (s : Session D χ) (key : String) : Option (Value D) :=
  s.getTyped key <|>
    match key.splitOn "." with
    | [root, field] => if root == "" || 256 ≤ root.utf8ByteSize then none else s.getField root field
    | _ => none

def Runtime.evalAstBoolResult (rt : Runtime D χ) (ast : Ast D) (view : View D) (eff : Effects D χ) :
    Except Error Bool × Effects D χ :=
  match rt.evalAst ast view eff with
  | (.ok (.bool b), eff) => (.ok b, eff)
  | (.ok _, eff) => (.error ⟨.typeMismatch, "Expression did not evaluate to bool"⟩, eff)
  | (.error err, eff) => (.error err, eff)

def Runtime.eval (rt : Runtime D χ) (kind : ResultKind) (ast : Ast D) (view : View D) (eff : Effects D χ) :
    Except Error (Value D) × Effects D χ :=
  match kind with
  | .number => ((rt.evalAstNumber ast view eff).1.map .number, (rt.evalAstNumber ast view eff).2)
  | .bool => ((rt.evalAstBoolResult ast view eff).1.map .bool, (rt.evalAstBoolResult ast view eff).2)
  | .int64 | .unknown => rt.evalAst ast view eff

omit [Double D] in
/-- `cxpr_model_session_history_push`, and the push of `cxpr_model_session_commit_pending`. -/
def historyPush (name : String) (v : Value D) (entries : List (HistoryEntry D)) : List (HistoryEntry D) :=
  entries.replaceF fun e => if e.name == name then some { e with ring := e.ring.push v } else none

/-- The array `cxpr_model_session_publish_state_buffer` makes of a buffer: the samples, newest first, then `NAN`. -/
def published (rt : Runtime D χ) (ring : SampleRing (Value D)) : List (Value D) :=
  (List.range ring.values.length).map fun i => (ring.newest i).getD (.number rt.nan)

def pushBuffer (rt : Runtime D χ) (name : String) (v : Value D) (s : Session D χ) : Session D χ :=
  match s.stateBuffers.find? (·.name == name) with
  | none => s
  | some entry =>
    if entry.ring.values.length = 0 then s
    else
      { s with
        stateBuffers := historyPush name v s.stateBuffers
        ctx := s.ctx.setValue name (.array (published rt (entry.ring.push v))) }

/-! ### Ticks -/

omit [Double D] in
def Constant.limited (c : Constant D) : Bool := c.minValue.isSome || c.maxValue.isSome

def Constant.clamp (c : Constant D) (value : D) : D :=
  let value := match c.minValue with | some lo => if Double.lt value lo then lo else value | none => value
  match c.maxValue with | some hi => if Double.gt value hi then hi else value | none => value

/-- One turn of the loop of `cxpr_model_session_tick` over the constants. It reads and writes the variable of that name,
    not the parameter. -/
def clampConstant (s : Session D χ) (c : Constant D) : Session D χ :=
  if c.limited then
    match s.get c.name with
    | none => s
    | some value => { s with ctx := s.ctx.set c.name (c.clamp value) }
  else s

/-- The loop of `cxpr_model_session_tick` over the constants. -/
def clampConstants (p : Program D) (s : Session D χ) : Session D χ := p.constants.foldl clampConstant s

/-- One turn of `cxpr_model_session_commit_pending`. -/
def commitValue (rt : Runtime D χ) (s : Session D χ) (x : Binding D × Value D) : Session D χ :=
  if x.1.buffer then pushBuffer rt x.1.name x.2 s else { s with ctx := s.ctx.setValue x.1.name x.2 }

def commitPending (rt : Runtime D χ) (s : Session D χ) : Session D χ :=
  { s.pending.foldl (commitValue rt) s with pending := [] }

/-- What is done with the value of a binding: an update is staged, an expression is written to the context. -/
def assign (b : Binding D) (v : Value D) (s : Session D χ) : Session D χ :=
  match b.kind with
  | .stateUpdate => { s with pending := s.pending ++ [(b, v)] }
  | .expr => { s with ctx := s.ctx.setValue b.name v }

/-- The loop of `cxpr_model_session_tick` over the bindings. A failure drops what is staged. -/
def evalBindings (rt : Runtime D χ) : List (Binding D) → Session D χ → Option Error × Session D χ
  | [], s => (none, s)
  | b :: bs, s =>
    match rt.eval b.resultKind b.ast s.view s.effects with
    | (.error err, eff) => (some err, { s with effects := eff, pending := [] })
    | (.ok v, eff) => evalBindings rt bs (assign b v { s with effects := eff })

def OutputState.setNumber (o : OutputState D) (value : D) : OutputState D :=
  { o with
    numberPrevious := o.numberCurrent
    hasNumberPrevious := o.hasNumberCurrent
    numberCurrent := value
    hasNumberCurrent := true
    previous := o.current
    hasPrevious := o.hasCurrent
    current := Double.ne value Double.zero
    hasCurrent := true }

def OutputState.setBool (o : OutputState D) (value : Bool) : OutputState D :=
  { o with
    numberPrevious := o.numberCurrent
    hasNumberPrevious := o.hasNumberCurrent
    numberCurrent := Double.ofBool value
    hasNumberCurrent := false
    previous := o.current
    hasPrevious := o.hasCurrent
    current := value
    hasCurrent := true }

omit [Double D] in
def OutputState.setInt64 (o : OutputState D) (value : Int64) : OutputState D :=
  { o with
    int64Previous := o.int64Current
    hasInt64Previous := o.hasInt64Current
    int64Current := value
    hasInt64Current := true
    hasNumberCurrent := false
    previous := o.current
    hasPrevious := o.hasCurrent
    current := value ≠ 0
    hasCurrent := true }

/-- What the end of the loop of `cxpr_model_session_refresh_outputs` stores: the value of `cxpr_context_get`. -/
def OutputState.setFound (o : OutputState D) (numeric : Option D) : OutputState D :=
  { o with
    numberPrevious := o.numberCurrent
    hasNumberPrevious := o.hasNumberCurrent
    numberCurrent := numeric.getD Double.zero
    hasNumberCurrent := numeric.isSome
    previous := o.current
    hasPrevious := o.hasCurrent
    current := numeric.any (Double.ne · Double.zero)
    hasCurrent := numeric.isSome }

def stagedScalar (name : String) (pending : List (Binding D × Value D)) : Option (Value D) :=
  (pending.find? fun x => x.1.name == name && (x.2.type == .number || x.2.type == .bool || x.2.type == .int64)).map (·.2)

/-- One turn of `cxpr_model_session_refresh_outputs`. -/
def refreshOutput (s : Session D χ) (name : String) (o : OutputState D) : OutputState D :=
  match stagedScalar name s.pending with
  | some (.number d) => o.setNumber d
  | some (.bool b) => o.setBool b
  | some (.int64 i) => o.setInt64 i
  | _ =>
    match s.getTyped name with
    | some (.int64 i) => o.setInt64 i
    | _ => o.setFound (s.get name)

def refreshOutputs (p : Program D) (s : Session D χ) : Session D χ :=
  { s with outputs := List.zipWith (refreshOutput s) p.outputs s.outputs }

/-- `cxpr_model_session_capture_history`. -/
def captureHistory (rt : Runtime D χ) : List (HistorySpec D) → Session D χ → Option Error × Session D χ
  | [], s => (none, s)
  | spec :: specs, s =>
    match s.historyValue spec.name, spec.target with
    | some v, _ => captureHistory rt specs { s with histories := historyPush spec.name v s.histories }
    | none, none => captureHistory rt specs s
    | none, some target =>
      match rt.evalAst target s.view s.effects with
      | (.error err, eff) => (some err, { s with effects := eff })
      | (.ok v, eff) =>
        captureHistory rt specs { s with effects := eff, histories := historyPush spec.name v s.histories }

def finish (rt : Runtime D χ) (p : Program D) (s : Session D χ) : Option Error × Session D χ :=
  match captureHistory rt p.historySpecs (refreshOutputs p s) with
  | (some _, s) => (some ⟨.outOfMemory, "Out of memory"⟩, s)
  | (none, s) => (none, s)

omit [Double D] in
def clearCachedStructs (s : Session D χ) : Session D χ := { s with effects := { s.effects with cached := fun _ => none } }

def ready (rt : Runtime D χ) (p : Program D) (s : Session D χ) : Session D χ :=
  commitPending rt (clearCachedStructs (clampConstants p s))

/-- `cxpr_model_session_tick`; `none` is success. -/
def tick (rt : Runtime D χ) (p : Program D) (s : Session D χ) : Option Error × Session D χ :=
  match evalBindings rt p.bindings (ready rt p s) with
  | (some err, s) => (some err, s)
  | (none, s) => finish rt p s

def proceed {α : Type} (r : Option Error × α) (next : α → Option Error × α) : Option Error × α :=
  match r with
  | (some err, s) => (some err, s)
  | (none, s) => next s

@[simp] theorem proceed_some {α : Type} (err : Error) (s : α) (next : α → Option Error × α) :
    proceed (some err, s) next = (some err, s) := rfl

@[simp] theorem proceed_none {α : Type} (s : α) (next : α → Option Error × α) : proceed (none, s) next = next s := rfl

theorem tick_eq (rt : Runtime D χ) (p : Program D) (s : Session D χ) :
    tick rt p s = proceed (evalBindings rt p.bindings (ready rt p s)) (finish rt p) := by
  unfold tick
  rcases evalBindings rt p.bindings (ready rt p s) with ⟨_ | err, t⟩ <;> rfl

/-- The loop of `cxpr_model_compiled_seed_defaults`. -/
def seedConstants (rt : Runtime D χ) : List (Constant D) → Session D χ → Except Error (Session D χ)
  | [], s => .ok s
  | c :: cs, s =>
    match rt.evalAst c.ast s.view s.effects with
    | (.error err, _) => .error err
    | (.ok v, eff) => seedConstants rt cs { s with effects := eff, ctx := s.ctx.setParamValue c.name v }

/-- The loop of `cxpr_model_session_new` over the states, with the values of the defaults. No session is active then, so
    an evaluation sees neither histories nor buffers. -/
def seedStates (rt : Runtime D χ) : List (StateDefault D) → Session D χ →
    Except Error (Session D χ × List (String × Value D))
  | [], s => .ok (s, [])
  | st :: sts, s =>
    match st.initial with
    | .inr _ => seedStates rt sts s
    | .inl ast =>
      match rt.eval st.resultKind ast { s.view with histories := [], stateBuffers := [] } s.effects with
      | (.error err, _) => .error err
      | (.ok v, eff) => do
        let (s, defaults) ← seedStates rt sts { s with effects := eff, ctx := s.ctx.setValue st.name v }
        return (s, (st.name, v) :: defaults)

def newRing (capacity : Nat) : SampleRing (Value D) := { values := List.replicate capacity (.number Double.zero) }

def newBuffers (sts : List (StateDefault D)) : List (HistoryEntry D) :=
  sts.filterMap fun st =>
    match st.initial with
    | .inr samples => some ⟨st.name, newRing samples⟩
    | .inl _ => none

/-- A new session before its context is seeded: the state buffers are published, everything else is empty. -/
def blank (rt : Runtime D χ) (p : Program D) (children : χ) : Session D χ where
  ctx := (newBuffers p.stateDefaults).foldl (fun ctx b => ctx.setValue b.name (.array (published rt b.ring))) {}
  effects := ⟨fun _ => none, children⟩
  outputs := p.outputs.map fun _ => { numberCurrent := Double.zero, numberPrevious := Double.zero }
  histories := p.historySpecs.map fun spec => ⟨spec.name, newRing spec.depth⟩
  stateBuffers := newBuffers p.stateDefaults
  pending := []

/-- `cxpr_model_session_new`, with the values of the state defaults; `children` are the new child sessions. -/
def sessionNew (rt : Runtime D χ) (p : Program D) (children : χ) :
    Except Error (Session D χ × List (String × Value D)) := do
  seedStates rt p.stateDefaults (← seedConstants rt p.constants (blank rt p children))

end
end Cxpr.Model
