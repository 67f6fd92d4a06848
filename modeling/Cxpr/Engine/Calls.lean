import Cxpr.Engine.Session
import Cxpr.Lib.Upsert
import Cxpr.Model.Cells

/-! Calls of sources in a tick (`src/engine/source.c`). An expression sees a session through its context, the calls of its
    sources and the results of its tracked expressions. -/

namespace Cxpr.Engine
open Expression
variable {D : Type} [Double D]

inductive Binding (D : Type) where
  | view (mapIndex : Int → Int) (fn : Int → String → List D → Option D)
  | column (values : List D)

/-- The answers of the host in one tick: its pull functions, and the bindings of the other sources by their place. -/
structure Host (D : Type) where
  pull : String → List D → D
  binding : Nat → Binding D

/-- The view and column cases of `engine_resolve_source_call`. -/
def Binding.value (nan : D) (cursor : Int) (name : String) (args : List D) : Binding D → D
  | .view mapIndex fn =>
    if 0 ≤ cursor ∧ 0 ≤ mapIndex cursor then (fn (mapIndex cursor) name args).getD nan else nan
  | .column values => if args.isEmpty ∧ 0 ≤ cursor then values.getD cursor.toNat nan else nan

def argsEqual : List D → List D → Bool
  | [], [] => true
  | a :: as, b :: bs => Double.eq a b && argsEqual as bs
  | _, _ => false

def sourceMemoGet (memo : List (SourceMemo D)) (src : Nat) (args : List D) (offset : Nat) : Option D :=
  (memo.find? fun e => e.src == src && e.offset == offset && argsEqual e.args args).map (·.value)

def ArgRing.serves (source : String) (args : List D) (e : ArgRing D) : Bool := e.source == source && argsEqual e.args args

/-- The entry that `engine_arg_ring_get_or_create` makes. -/
def ArgRing.new (source : String) (args : List D) (cap : Nat) : ArgRing D :=
  ⟨source, args, ⟨List.replicate cap Double.zero, 0, 0⟩, -1⟩

omit [Double D] in
/-- `engine_arg_ring_append`: a ring takes one sample in a tick. -/
def ArgRing.append (cursor : Int) (v : D) (e : ArgRing D) : ArgRing D :=
  if e.lastAppendCursor = cursor then e else { e with ring := e.ring.append v, lastAppendCursor := cursor }

def argRing (rings : List (ArgRing D)) (source : String) (args : List D) (cap : Nat) : ArgRing D :=
  (rings.find? (ArgRing.serves source args)).getD (ArgRing.new source args cap)

/-- The switch of `engine_resolve_source_call`, for the arguments that `engine_eval_call_args` lets pass. -/
def sourceValue (nan : D) (host : Host D) (s : Session D) (i : Nat) (src : Source D) (args : List D) (offset : Nat)
    (rings : List (ArgRing D)) : D × List (ArgRing D) :=
  if src.pull then
    match args, src.ring with
    | [], none => (if offset = 0 then host.pull src.name [] else nan, rings)
    | [], some ring => ((ring.read offset).getD nan, rings)
    | args, none => (host.pull src.name args, rings)
    | args, some ring =>
      let sample := ArgRing.append s.cursor (host.pull src.name args)
      ((((sample (argRing rings src.name args ring.slots.length)).ring.read offset)).getD nan,
        rings.upsert (ArgRing.serves src.name args) (ArgRing.new src.name args ring.slots.length) sample)
  else ((host.binding i).value nan (s.cursor - offset) src.name args, rings)

def resolveSourceCall (nan : D) (host : Host D) (s : Session D) (i : Nat) (src : Source D) (args : List D) (offset : Nat)
    (c : Calls D) : D × Calls D :=
  match sourceMemoGet c.sourceMemo i args offset with
  | some v => (v, c)
  | none =>
    let (v, rings) := sourceValue nan host s i src args offset c.argRings
    (v, { c with argRings := rings, sourceMemo := sourceMemoSet s.sourceMemoCap c.sourceMemo ⟨i, args, offset, v⟩ })

/-- `engine_resolve_current_source`. The memo of a tick has nothing of a source that is not read yet. -/
def currentSource (nan : D) (host : Host D) (s : Session D) (i : Nat) (src : Source D) : D :=
  if src.pull then host.pull src.name [] else (sourceValue nan host s i src [] 0 s.argRings).1

omit [Double D] in
def trackedExpressionValue (rules : Rules D) (s : Session D) (entries : List (Entry D)) (index lookback : Nat) :
    Option (Value D) :=
  match s.exprRings[index]? with
  | none => none
  | some ring =>
    if lookback = 0 then (rules.tracked[index]?.bind fun t => get entries t.name) <|> ring.read 0
    else ring.read lookback

structure Scope (D : Type) where
  cell : String → Cell D
  params : Params D

def scope (s : Session D) : Scope D := ⟨s.ctx.cell, s.ctx.paramStores⟩

/-- The evaluation of an expression as the session meets it: it calls sources, by name and with the offset of the
    lookbacks around the call, it reads tracked expressions, and it ends with a result and the caches of the context. -/
inductive Inquiry (D : Type) where
  | done (result : Except Error (Value D)) (cachedStructs : NameMap (List (String × Value D))) (evalMemo : List (Ast D × Value D))
  | call (source : String) (args : List D) (offset : Nat) (next : Option D → Inquiry D)
  | tracked (index lookback : Nat) (next : Option (Value D) → Inquiry D)

def Inquiry.run (nan : D) (host : Host D) (rules : Rules D) (s : Session D) (entries : List (Entry D)) :
    Inquiry D → Calls D → Except Error (Value D) × Calls D
  | .done result cachedStructs evalMemo, c => (result, { c with cachedStructs, evalMemo })
  | .call source args offset next, c =>
    -- `engine_find_source_in` takes the first source of the name
    match s.sources.findIdx? (·.name == source) with
    | none => run nan host rules s entries (next none) c
    | some i =>
      match s.sources[i]? with
      | none => run nan host rules s entries (next none) c
      | some src =>
        let (v, c) := resolveSourceCall nan host s i src args offset c
        run nan host rules s entries (next (some v)) c
  | .tracked index lookback next, c =>
    run nan host rules s entries (next (trackedExpressionValue rules s entries index lookback)) c

/-- What the host sets of the context: `cxpr_engine_set_param_value` and `cxpr_engine_set_role`. -/
inductive Setting (D : Type) where
  | param (name : String) (value : Value D)
  | role (name : String) (members : List D)

def roleStruct (members : List D) : List (String × Value D) :=
  ("bound_count", .number (Double.ofNat members.length)) :: ("value_count", .number (Double.ofNat members.length)) ::
    members.zipIdx.map fun (v, i) => (s!"v{i}", .number v)

def Setting.apply (f : Frame D) : Setting D → Frame D
  | .param name value => f.setParamValue name value
  | .role name members =>
    if name == "" then f
    else
      let f := f.setStruct ("__cxpr_basket_role_" ++ name) (roleStruct members)
      match members with
      | [v] => f.setParamValue name (.number v)
      | _ => f

/-- One tick as the host drives it: the settings before it, the index of `cxpr_engine_tick_at`, the answers of the host
    and the evaluations of the expressions, which see the context, the cursor, the results so far and the caches. -/
structure Turn (D : Type) where
  settings : List (Setting D)
  index : Option Nat
  host : Host D
  evaluate : Scope D → Int → Nat → List (Entry D) → NameMap (List (String × Value D)) → List (Ast D × Value D) → Inquiry D

def Turn.tick (nan : D) (rules : Rules D) (turn : Turn D) : Tick D where
  prepare := fun f => turn.settings.foldl Setting.apply f
  index := turn.index
  current := currentSource nan turn.host
  evalEntry := fun s idx entries c =>
    (turn.evaluate (scope s) s.cursor idx entries c.cachedStructs c.evalMemo).run nan turn.host rules s entries c

theorem Turn.evalEntry_eq (nan : D) (rules : Rules D) (turn : Turn D) (s : Session D) (idx : Nat) (entries : List (Entry D))
    (c : Calls D) :
    (turn.tick nan rules).evalEntry s idx entries c =
      (turn.evaluate (scope s) s.cursor idx entries c.cachedStructs c.evalMemo).run nan turn.host rules s entries c := rfl

end Cxpr.Engine
