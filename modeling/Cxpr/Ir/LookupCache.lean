import Cxpr.Memory

/-! The lookup cache of a compiled program (`src/ir/program.c`): every load instruction keeps the place where its name
    was found last, and trusts it as long as the pointers and a 64-bit summary of the versions on the way are the same.
    The summary need not tell two chains of contexts apart: freed overlays come back under their old address with their
    versions reset, and different versions may have the same summary. Where it does tell them apart, the cache is
    coherent. -/

namespace Cxpr.Ir.LookupCache
open Memory ProbeTable
variable {D : Type}

/-- A `LOAD_VAR` or `LOAD_PARAM` instruction. -/
structure Load where
  name : String
  param : Bool

structure Cache where
  requestCtx : Option Addr := none
  ownerCtx : Option Addr := none
  entriesBase : Option Addr := none
  slot : Nat := 0
  shadowVersion : UInt64 := 0
  /-- Not in the source: the stamps of the contexts from the request to the owner. -/
  stamps : List Nat := []

/-! ### Lookup -/

def Load.store (load : Load) (c : Cell D) : Store D := if load.param then c.params else c.vars

def Load.find (load : Load) (c : Cell D) : Option Nat := (load.store c).table.find hashSlot load.name

/-- `cxpr_context_get_local_bool`, for variables. -/
def Load.localBool (load : Load) (c : Cell D) : Option Bool := if load.param then none else c.bools.lookup load.name

/-- The contexts from `a` to the context `stop`, or to the end of the parent chain. -/
def path (heap : Heap D) (stop : Option Addr) : Nat → Addr → List (Addr × Cell D)
  | 0, _ => []
  | fuel + 1, a =>
    match heap.cells a with
    | none => []
    | some c =>
      (a, c) ::
        if stop = some a then []
        else
          match c.parent with
          | none => []
          | some p => path heap stop fuel p

/-- The parent chain. Parents are older than their overlays, so the clock is enough fuel. -/
def chain (heap : Heap D) (a : Addr) : List (Addr × Cell D) := path heap none heap.clock a

def lookupShadowVersion (heap : Heap D) (load : Load) (request owner : Addr) : UInt64 :=
  (path heap (some owner) heap.clock request).foldl
    (fun fingerprint (_, c) => fingerprint ^^^ ((load.store c).version + 0x9e3779b97f4a7c15 +
      (fingerprint <<< (6 : UInt64)) + (fingerprint >>> (2 : UInt64)))) 1469598103934665603

def shadowStamps (heap : Heap D) (load : Load) (request owner : Addr) : List Nat :=
  (path heap (some owner) heap.clock request).map fun (_, c) => (load.store c).stamp

inductive Hit (D : Type) where
  | bool (b : Bool)
  | entry (owner : Addr) (cell : Cell D) (slot : Nat)

def walk (load : Load) : List (Addr × Cell D) → Option (Hit D)
  | [] => none
  | (a, c) :: rest =>
    match load.localBool c, load.find c with
    | some b, _ => some (.bool b)
    | none, some slot => some (.entry a c slot)
    | none, none => walk load rest

/-- A context without parent and scope. A parameter is not looked up this way while the context has bools. -/
def Load.isRoot (load : Load) (c : Cell D) : Bool :=
  (!load.param || c.bools.entries.isEmpty) && c.parent.isNone && c.expressionScope.isNone

section
variable [Double D]

def Load.valueAt (load : Load) (c : Cell D) (slot : Nat) : D := (load.store c).table.valueAt Double.zero slot

def Hit.value (load : Load) : Hit D → D
  | .bool b => Double.ofBool b
  | .entry _ c slot => load.valueAt c slot

/-- The result of an attached evaluator: `none` goes on with the context, `some none` is not found. -/
def Load.scoped (load : Load) (c : Cell D) : Option (Option D) :=
  if load.param then none
  else
    match c.expressionScope.bind (· load.name) with
    | some (.number d) => some (some d)
    | some (.bool b) => some (some (Double.ofBool b))
    | some _ => some none
    | none => none

def lookupScalar (heap : Heap D) (load : Load) (a : Addr) : Option D :=
  match heap.cells a with
  | none => none
  | some c =>
    match load.scoped c with
    | some r => r
    | none => (walk load (chain heap a)).map (Hit.value load)

def lookupRoot (load : Load) (cache : Cache) (a : Addr) (c : Cell D) : Option D × Cache :=
  let s := load.store c
  if cache.requestCtx = some a ∧ cache.ownerCtx = some a ∧ cache.entriesBase = some s.base ∧
      cache.shadowVersion = s.version then
    (some (load.valueAt c cache.slot), cache)
  else
    match load.find c with
    | some slot => (some (load.valueAt c slot), ⟨some a, some a, some s.base, slot, s.version, [s.stamp]⟩)
    | none => (none, {})

def lookupParents (heap : Heap D) (load : Load) (a : Addr) : Option D × Cache :=
  match walk load (chain heap a) with
  | none => (none, {})
  | some (.bool b) => (some (Double.ofBool b), {})
  | some (.entry owner c slot) =>
    (some (load.valueAt c slot), ⟨some a, some owner, some (load.store c).base, slot,
      lookupShadowVersion heap load a owner, shadowStamps heap load a owner⟩)

/-- The branch for a context with a parent. `none` is a read of an owner that was freed. -/
def lookupChained (heap : Heap D) (load : Load) (cache : Cache) (a : Addr) (c : Cell D) : Option (Option D × Cache) :=
  if cache.requestCtx = some a ∧ cache.ownerCtx = some a ∧ cache.entriesBase = some (load.store c).base ∧
      cache.shadowVersion = lookupShadowVersion heap load a a then
    some (some (load.valueAt c cache.slot), cache)
  else if cache.requestCtx = some a then
    match cache.ownerCtx, cache.entriesBase with
    | some o, some base =>
      match heap.cells o with
      | none => none
      | some owner =>
        if base = (load.store owner).base ∧ cache.shadowVersion = lookupShadowVersion heap load a o then
          some (some (load.valueAt owner cache.slot), cache)
        else some (lookupParents heap load a)
    | _, _ => some (lookupParents heap load a)
  else some (lookupParents heap load a)

/-- `cxpr_ir_lookup_cached_scalar`: the value, if it is found, and the cache afterwards. -/
def lookupCachedScalar (heap : Heap D) (load : Load) (cache : Cache) (a : Addr) : Option (Option D × Cache) :=
  match heap.cells a with
  | none => none
  | some c =>
    match load.scoped c with
    | some r => some (r, cache)
    | none =>
      match load.localBool c with
      | some b => some (some (Double.ofBool b), {})
      | none =>
        if load.isRoot c then some (lookupRoot load cache a c) else lookupChained heap load cache a c

end

structure State (D : Type) where
  heap : Heap D := {}
  caches : Nat → Cache := fun _ => {}

/-- A call of the context interface, or an instruction of the program evaluated on a context. -/
inductive Event (D : Type) where
  | call (call : Call D)
  | lookup (ip : Nat) (a : Addr)

def State.Legal (s : State D) : Event D → Prop
  | .call call => s.heap.Legal call
  | .lookup _ a => s.heap.InUse a

/-- The cache tells this chain from the one it was filled from: the owner is still there, and if the recorded shadow
    version is the present one, then the contexts on the way to the owner are the same, without a change of their
    versions in between. -/
def Tells (heap : Heap D) (load : Load) (cache : Cache) (a : Addr) : Prop :=
  ∀ c o, heap.cells a = some c → cache.requestCtx = some a → cache.ownerCtx = some o →
    if load.isRoot c then o = a → cache.shadowVersion = (load.store c).version → cache.stamps = [(load.store c).stamp]
    else heap.cells o ≠ none ∧
      (cache.shadowVersion = lookupShadowVersion heap load a o → cache.stamps = shadowStamps heap load a o)

def Telling (program : Nat → Load) (s : State D) : Event D → Prop
  | .call _ => True
  | .lookup ip a => Tells s.heap (program ip) (s.caches ip) a

section
variable [Double D]

def State.after (program : Nat → Load) (s : State D) : Event D → State D
  | .call call => { s with heap := s.heap.after call }
  | .lookup ip a =>
    match lookupCachedScalar s.heap (program ip) (s.caches ip) a with
    | some (_, cache) => { s with caches := Function.update s.caches ip cache }
    | none => s

/-- The states of the runs whose events are all `ok`. -/
inductive Reached (program : Nat → Load) (ok : State D → Event D → Prop) : State D → Prop
  | start : Reached program ok {}
  | step {s : State D} {e : Event D} (h : Reached program ok s) (hlegal : s.Legal e) (hok : ok s e) :
      Reached program ok (s.after program e)

end
end Cxpr.Ir.LookupCache
