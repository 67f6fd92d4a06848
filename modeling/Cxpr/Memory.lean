import Cxpr.Context
import Cxpr.Lib.ProbeTable

/-! Contexts in memory (`src/context/lifecycle.c`, `src/context/values.c`, `src/context/slot.c`, `src/hashmap`): the
    address of a context, the hash tables of its variables and parameters with their versions, and the recycling of
    freed overlays. A context is an object at an address that the allocator, or the cache of overlays, gives out again
    after the object is freed. Of the other stores only their being allocated is kept. -/

namespace Cxpr.Memory
open ProbeTable
variable {D : Type}

abbrev Addr := Nat

def hashString (name : String) : UInt64 :=
  name.toUTF8.toList.foldl (fun hash c => ((hash <<< (5 : UInt64)) + hash) + c.toUInt64) 5381

def hashSlot (name : String) : Nat := (hashString name).toNat

def initialCapacity : Nat := 32

def overlayCacheMax : Nat := 64

/-- A `cxpr_hashmap` of a context with its version. -/
structure Store (D : Type) where
  base : Addr
  table : Table String D
  version : UInt64
  /-- Not in the source: the moment of the last change of `version`, or of the creation of the context. -/
  stamp : Nat

/-- A `cxpr_context`. -/
structure Cell (D : Type) where
  vars : Store D
  params : Store D
  bools : NameMap Bool := ∅
  /-- Some list of bools, integers, strings, structs or arrays was allocated. -/
  listStorage : Bool := false
  parent : Option Addr
  expressionScope : Option (String → Option (Value D)) := none
  /-- Not in the source: the moment of the creation. -/
  born : Nat

/-- The memory: contexts in use or in the overlay cache, and that cache, last freed first. -/
structure Heap (D : Type) where
  cells : Addr → Option (Cell D) := fun _ => none
  recycled : List Addr := []
  /-- Not in the source: a clock for the auxiliary fields. -/
  clock : Nat := 0

namespace Store

def bump (clock : Nat) (s : Store D) : Store D := { s with version := s.version + 1, stamp := clock }

/-- `cxpr_context_set_hashed`; `fresh` is where a growing table moves to. -/
def set (clock : Nat) (fresh : Addr) (s : Store D) (name : String) (value : D) : Store D :=
  match s.table.find hashSlot name with
  | some slot => { s with table := s.table.setAt slot value }
  | none =>
    { s.bump clock with
      base := if s.table.full then fresh else s.base
      table := s.table.insertNew hashSlot name value }

/-- `cxpr_hashmap_clear` with the version. -/
def clear (clock : Nat) (s : Store D) : Store D :=
  { s.bump clock with table := empty s.table.entries.length }

end Store

inductive Write (D : Type) where
  /-- `cxpr_context_set_value`, and `cxpr_context_set`, `set_bool`, `set_int64` and `set_string` by their type. -/
  | value (name : String) (v : Value D)
  /-- `cxpr_context_set_param_value`, and the parameter setters by their type. -/
  | param (name : String) (v : Value D)
  /-- `cxpr_context_slot_set` through a slot of the variables. -/
  | slot (slot : Nat) (d : D)
  | clear
  /-- `cxpr_context_set_expression_scope` and `cxpr_context_clear_expression_scope`. -/
  | expressionScope (scope : Option (String → Option (Value D)))

namespace Cell

def setValue (clock : Nat) (fresh : Addr) (c : Cell D) (name : String) : Value D → Cell D
  | .number d => { c with bools := c.bools.erase name, vars := c.vars.set clock fresh name d }
  | .bool b =>
    { c with bools := c.bools.insert name b, vars := c.vars.bump clock, listStorage := true }
  | .int64 _ | .string _ | .array _ =>
    { c with bools := c.bools.erase name, vars := c.vars.bump clock, listStorage := true }
  -- no new version
  | .struct _ => { c with bools := c.bools.erase name, listStorage := true }
  | .null | .timestamp _ | .duration _ => c

def setParamValue (clock : Nat) (fresh : Addr) (c : Cell D) (name : String) : Value D → Cell D
  | .number d => { c with params := c.params.set clock fresh name d }
  | .bool _ | .int64 _ | .string _ | .struct _ | .array _ =>
    { c with params := c.params.bump clock, listStorage := true }
  | .null | .timestamp _ | .duration _ => c

def write (clock : Nat) (fresh : Addr) (c : Cell D) : Write D → Cell D
  | .value name v => c.setValue clock fresh name v
  | .param name v => c.setParamValue clock fresh name v
  | .slot slot d => { c with vars := { c.vars with table := c.vars.table.setAt slot d } }
  | .clear =>
    { c with vars := c.vars.clear clock, params := c.params.clear clock, bools := ∅ }
  | .expressionScope scope => { c with expressionScope := scope }

/-- `cxpr_context_new`, with its tables at the given places. -/
def new (clock : Nat) (vars params : Addr) (parent : Option Addr) : Cell D where
  vars := ⟨vars, empty initialCapacity, 1, clock⟩
  params := ⟨params, empty initialCapacity, 1, clock⟩
  parent := parent
  born := clock

def resetEmptyOverlay (clock : Nat) (c : Cell D) (parent : Option Addr) : Cell D :=
  { c with
    vars := { c.vars with version := 1, stamp := clock }
    params := { c.params with version := 1, stamp := clock }
    parent := parent
    expressionScope := none
    born := clock }

def canCacheEmptyOverlay (c : Cell D) : Bool :=
  c.parent.isSome && c.vars.version == 1 && c.params.version == 1 && c.vars.table.count == 0 &&
    c.params.table.count == 0 && c.bools.entries.isEmpty && !c.listStorage && c.expressionScope.isNone

end Cell

/-- Calls of the context interface. Where the source allocates, the call carries the addresses the allocator chose. -/
inductive Call (D : Type) where
  | new (a vars params : Addr)
  | overlayNew (parent : Addr) (a vars params : Addr)
  | free (a : Addr)
  | write (a : Addr) (fresh : Addr) (w : Write D)

namespace Heap

def put (heap : Heap D) (a : Addr) (c : Option (Cell D)) : Heap D :=
  { heap with cells := Function.update heap.cells a c, clock := heap.clock + 1 }

def after (heap : Heap D) : Call D → Heap D
  | .new a vars params => heap.put a (some (.new heap.clock vars params none))
  | .overlayNew parent a vars params =>
    match heap.recycled with
    | [] => heap.put a (some (.new heap.clock vars params (some parent)))
    | r :: rest =>
      { heap.put r ((heap.cells r).map (·.resetEmptyOverlay heap.clock (some parent))) with recycled := rest }
  | .free a =>
    match heap.cells a with
    | none => heap
    | some c =>
      if c.canCacheEmptyOverlay && heap.recycled.length < overlayCacheMax then
        { heap.put a (some (c.resetEmptyOverlay heap.clock none)) with recycled := a :: heap.recycled }
      else heap.put a none
  | .write a fresh w => heap.put a ((heap.cells a).map (·.write heap.clock fresh w))

def InUse (heap : Heap D) (a : Addr) : Prop := (heap.cells a).isSome ∧ a ∉ heap.recycled

/-- A call that the interface allows: on contexts in use, with a parent that outlives its overlays, and with memory that
    the allocator does not hold. -/
def Legal (heap : Heap D) : Call D → Prop
  | .new a _ _ => heap.cells a = none
  | .overlayNew parent a _ _ => heap.InUse parent ∧ heap.cells a = none
  | .free a => heap.InUse a ∧ ∀ b c, heap.cells b = some c → c.parent ≠ some a
  | .write a _ _ => heap.InUse a

end Heap
end Cxpr.Memory
