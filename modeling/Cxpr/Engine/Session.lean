import Cxpr.Context
import Cxpr.Expression.Evaluator
import Cxpr.Lib.RingBuffer

/-! Sessions of an engine program (`src/engine/session.c`): a tick reads the sources, evaluates the expressions and
    reports the transitions of the watched ones. What the callbacks of the host answer and what an expression evaluates
    to are given with each tick. -/

namespace Cxpr.Engine
open Expression
variable {D : Type}

inductive Edge where
  | rising | falling | level | changed
deriving DecidableEq, Repr

structure Watch where
  exprName : String
  edge : Edge
deriving DecidableEq, Repr

/-- The part of an `engine_source` that a tick reads: pull sources that are looked back to have a ring. -/
structure Source (D : Type) where
  name : String
  pull : Bool
  hydrateBare : Bool
  ring : Option (RingBuffer D)

/-- `engine_tracked_expr`. -/
structure Tracked where
  name : String
  maxDepth : Nat

/-- What a session reads of its `cxpr_engine_program`: every watch names an expression, and the order of evaluation
    reaches every expression. -/
structure Rules (D : Type) where
  exprs : List (String × String)
  evalOrder : List Nat
  watches : List Watch
  sources : List (Source D)
  tracked : List Tracked
  watch_known : ∀ w ∈ watches, w.exprName ∈ exprs.map (·.1)
  order_complete : ∀ i < exprs.length, i ∈ evalOrder

/-- One place of `prev_truthy`, `prev_value` and `prev_valid`. -/
structure Transition (D : Type) where
  prevTruthy : Bool
  prevValue : D
  prevValid : Bool

/-- `engine_arg_ring_entry`. -/
structure ArgRing (D : Type) where
  source : String
  args : List D
  ring : RingBuffer D
  lastAppendCursor : Int

/-- `engine_source_memo_entry`; `src` is the place of the source. -/
structure SourceMemo (D : Type) where
  src : Nat
  args : List D
  offset : Nat
  value : D

structure Session (D : Type) where
  cursor : Int
  ctx : Frame D
  sources : List (Source D)
  exprRings : List (RingBuffer (Value D))
  argRings : List (ArgRing D)
  sourceMemo : List (SourceMemo D)
  sourceMemoCap : Nat
  entries : List (Entry D)
  transitions : List (Transition D)
  eventCap : Nat

/-- What an evaluation writes: the rings of arguments, the memo of source calls and the caches of the context, which
    `cxpr_evaluator_eval` empties. -/
structure Calls (D : Type) where
  argRings : List (ArgRing D)
  sourceMemo : List (SourceMemo D)
  cachedStructs : NameMap (List (String × Value D)) := ∅
  evalMemo : List (Ast D × Value D) := []

structure Event (D : Type) where
  exprName : String
  edge : Edge
  value : Value D

section
variable [Double D]

/-- A place of the transition arrays as `calloc` and `cxpr_engine_session_reset` leave it. -/
def Transition.initial : Transition D := ⟨false, Double.zero, false⟩

/-- `cxpr_engine_session_new`; `seeded` is the context with the defaults of the parameters and roles. -/
def sessionNew (rules : Rules D) (seeded : Frame D) : Session D where
  cursor := -1
  ctx := seeded
  sources := rules.sources
  exprRings := rules.tracked.map fun t => ⟨List.replicate (t.maxDepth + 1) (.number Double.zero), 0, 0⟩
  argRings := []
  sourceMemo := []
  sourceMemoCap := rules.sources.length * 16 + 32
  entries := rules.exprs.map fun e => ⟨e.1, e.2, .number Double.zero, false⟩
  transitions := List.replicate rules.watches.length Transition.initial
  eventCap := rules.watches.length

def sessionReset (s : Session D) : Session D :=
  { s with
    cursor := -1
    ctx := { s.ctx with cachedStructs := ∅ }
    sources := s.sources.map fun src => { src with ring := src.ring.map RingBuffer.clear }
    exprRings := s.exprRings.map fun r => { r.clear with slots := r.slots.map fun _ => .number Double.zero }
    argRings := s.argRings.map fun a => { a with ring := a.ring.clear, lastAppendCursor := -1 }
    sourceMemo := []
    transitions := s.transitions.map fun _ => Transition.initial }

/-- What comes from outside in one tick: the writes of the host to the context before it, the index of
    `cxpr_engine_tick_at`, the current values of the sources and the values of the expressions. -/
structure Tick (D : Type) where
  prepare : Frame D → Frame D
  index : Option Nat
  current : Session D → Nat → Source D → D
  evalEntry : Session D → Nat → List (Entry D) → Calls D → Except Error (Value D) × Calls D

/-- `engine_source_memo_set`, for arguments that a call can have. A full memo takes nothing. -/
def sourceMemoSet (cap : Nat) (memo : List (SourceMemo D)) (entry : SourceMemo D) : List (SourceMemo D) :=
  if cap ≤ memo.length then memo else memo ++ [entry]

/-- One turn of the loop of `cxpr_engine_tick` over the sources. A pull source is asked without the memo. -/
def hydrate (t : Tick D) (s : Session D) (i : Nat) : Session D :=
  match s.sources[i]? with
  | none => s
  | some src =>
    if !src.hydrateBare && !(src.pull && src.ring.isSome) then s
    else
      let v := t.current s i src
      { s with
        sources := if src.pull then s.sources.set i { src with ring := src.ring.map (·.append v) } else s.sources
        sourceMemo := if src.pull then s.sourceMemo else sourceMemoSet s.sourceMemoCap s.sourceMemo ⟨i, [], 0, v⟩
        ctx := s.ctx.set src.name v }

def valueToDouble (nan : D) : Value D → D
  | .number d => d
  | .bool b => Double.ofBool b
  | _ => nan

/-- The loop of `cxpr_engine_tick` that stores the results of the tracked expressions. -/
def fillRings (nan : D) (tracked : List Tracked) (entries : List (Entry D)) (rings : List (RingBuffer (Value D))) :
    List (RingBuffer (Value D)) :=
  List.zipWith (fun t r => r.setNewest ((get entries t.name).getD (.number nan))) tracked rings

def fires (edge : Edge) (prev : Transition D) (truthy : Bool) (num : D) : Bool :=
  match edge with
  | .rising => truthy && !prev.prevTruthy
  | .falling => !truthy && prev.prevTruthy
  | .level => truthy
  | .changed =>
    prev.prevValid && !(Double.isnan num && Double.isnan prev.prevValue) && Double.ne num prev.prevValue

/-- The loop of `cxpr_engine_tick` over the watches. A value that is no bool ends it, with the transitions before it
    already changed. -/
def detect (nan : D) (entries : List (Entry D)) (cap : Nat) :
    List Watch → List (Transition D) → List (Event D) → Except Error (List (Event D)) × List (Transition D)
  | w :: watches, prev :: prevs, events =>
    let val := get entries w.exprName
    let num := match val with | some v => valueToDouble nan v | none => nan
    let next := fun (truthy : Bool) =>
      let fire := fires w.edge prev truthy num
      let events := if fire && decide (events.length < cap) then
        events ++ [⟨w.exprName, w.edge, val.getD (.number nan)⟩] else events
      let (result, rest) := detect nan entries cap watches prevs events
      (result, ⟨truthy, num, true⟩ :: rest)
    match val with
    | some (.bool b) => next b
    | none => next false
    | some _ => (.error ⟨.typeMismatch, "engine watch expression must evaluate to bool"⟩, prev :: prevs)
  | _, prevs, events => (.ok events, prevs)

/-- The tick up to the evaluation: the cursor moves, the sources are read and each ring of results gets a place. -/
def advance (nan : D) (t : Tick D) (s : Session D) : Session D :=
  let cursor := match t.index with | some i => (i : Int) - 1 | none => s.cursor
  let s := { s with ctx := t.prepare s.ctx, cursor := cursor + 1, sourceMemo := [] }
  let s := (List.range s.sources.length).foldl (hydrate t) s
  { s with exprRings := s.exprRings.map (·.append (.number nan)), ctx := { s.ctx with cachedStructs := ∅ } }

def started (t : Tick D) (s : Session D) : Session D :=
  { s with
    ctx := t.prepare s.ctx
    cursor := (match t.index with | some i => (i : Int) - 1 | none => s.cursor) + 1
    sourceMemo := [] }

/-- `cxpr_engine_tick`, `cxpr_engine_tick_at` and `cxpr_engine_tick_fallback`. -/
def tick (nan : D) (rules : Rules D) (t : Tick D) (s : Session D) : Except Error (List (Event D)) × Session D :=
  let s := advance nan t s
  match evaluatorEval (t.evalEntry s) rules.evalOrder s.entries { argRings := s.argRings, sourceMemo := s.sourceMemo } with
  | (some err, entries, calls) =>
    (.error err, { s with entries := entries, argRings := calls.argRings, sourceMemo := calls.sourceMemo })
  | (none, entries, calls) =>
    let (result, transitions) := detect nan entries s.eventCap rules.watches s.transitions []
    (result, { s with
      entries := entries
      argRings := calls.argRings
      sourceMemo := calls.sourceMemo
      exprRings := fillRings nan rules.tracked entries s.exprRings
      transitions := transitions })

end

end Cxpr.Engine
