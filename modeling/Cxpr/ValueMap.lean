import Cxpr.Hashmap
import Cxpr.Lib.ProbeRemoval
import Cxpr.Value

/-! The maps of structs and arrays of a context (`src/struct.c`): tables with open addressing that own copies of their
    values. A map starts without a table; a removal puts the keys behind the removed one back, one by one. Operations
    give `none` when a loop of theirs does not end. -/

namespace Cxpr.ValueMap
open ProbeTable Memory
open Hashmap (Stores update Allocated sizeMax)
variable {D V : Type}

mutual
/-- `cxpr_value_clone`. -/
def cloneValue : Value D → Value D
  | .number d => .number d
  | .bool b => .bool b
  | .struct fields => .struct (structValueNew fields)
  | .string str => .string str
  | .null => .null
  | .timestamp unixNs => .timestamp unixNs
  | .duration nanoseconds => .duration nanoseconds
  | .array values => .array (arrayValueNew values)
  | .int64 i => .int64 i

def structValueNew : List (String × Value D) → List (String × Value D)
  | [] => []
  | (name, value) :: fields => (name, cloneValue value) :: structValueNew fields

def arrayValueNew : List (Value D) → List (Value D)
  | [] => []
  | value :: values => cloneValue value :: arrayValueNew values
end

mutual
theorem cloneValue_eq : ∀ value : Value D, cloneValue value = value
  | .number _ | .bool _ | .string _ | .null | .timestamp _ | .duration _ | .int64 _ => by simp only [cloneValue]
  | .struct fields => by rw [cloneValue, structValueNew_eq fields]
  | .array values => by rw [cloneValue, arrayValueNew_eq values]

theorem structValueNew_eq : ∀ fields : List (String × Value D), structValueNew fields = fields
  | [] => rfl
  | (_, value) :: fields => by rw [structValueNew, cloneValue_eq value, structValueNew_eq fields]

theorem arrayValueNew_eq : ∀ values : List (Value D), arrayValueNew values = values
  | [] => rfl
  | value :: values => by rw [arrayValueNew, cloneValue_eq value, arrayValueNew_eq values]
end

/-- `cxpr_struct_map_init`, `cxpr_array_map_init`: no table. -/
def init : Table String V := empty 0

/-- `cxpr_struct_map_find_slot`. -/
def findSlot (map : Table String V) (name : String) : Option (Option Nat) :=
  if map.entries.isEmpty then some none else (homeSlotFor hashSlot map.entries name).map some

/-- `cxpr_struct_map_grow`, `cxpr_array_map_grow`; `none` is failure. -/
def grow (map : Table String V) : Option (Table String V) :=
  if sizeMax / 2 < map.entries.length then none else some { map with entries := ProbeTable.grow hashSlot map.entries }

/-- Growth before one more key, if it is due. The quotient of the count and a power of two is exact as long as the
    count has 53 bits. -/
def makeRoom (map : Table String V) : Option (Table String V) := if map.full then grow map else some map

/-- The table of `CXPR_HASHMAP_INITIAL_CAPACITY` slots that a map gets with its first value. -/
def allocate (map : Table String V) : Table String V :=
  if map.entries.isEmpty then { map with entries := List.replicate initialCapacity none } else map

def put (map : Table String V) (slot : Nat) (name : String) (value : V) : Table String V :=
  match map.entries[slot]? with
  | some (some _) => map.setAt slot value
  | _ => ⟨map.entries.set slot (some (name, value)), map.count + 1⟩

section
variable (copy : V → V)

/-- `cxpr_context_store_struct`, `cxpr_context_store_array`. -/
def store (map : Table String V) (name : String) (value : V) : Option (Table String V) :=
  match makeRoom (allocate map) with
  | none => some (allocate map)
  | some map => (findSlot map name).bind fun slot => slot.map fun slot => put map slot name (copy value)

def cloneInto : List (Option (String × V)) → Table String V → Option (Table String V × Bool)
  | [], dst => some (dst, true)
  | none :: entries, dst => cloneInto entries dst
  | some (name, value) :: entries, dst =>
    match makeRoom dst with
    | none => some (dst, false)
    | some dst =>
      (findSlot dst name).bind fun slot => slot.bind fun slot =>
        cloneInto entries ⟨dst.entries.set slot (some (name, copy value)), dst.count + 1⟩

/-- `cxpr_struct_map_clone`, `cxpr_array_map_clone`. -/
def clone (src : Table String V) : Option (Table String V × Bool) :=
  if src.entries.isEmpty || src.count == 0 then some (init, true) else cloneInto copy src.entries (allocate init)

end

/-- `cxpr_context_remove_struct`, `cxpr_context_remove_array`. -/
def remove (map : Table String V) (name : String) : Option (Table String V) :=
  (findSlot map name).bind fun slot =>
    match slot with
    | none => some map
    | some slot =>
      match map.entries[slot]? with
      | some (some _) => map.removeAt hashSlot slot
      | _ => some map

/-- `cxpr_struct_map_clear`, `cxpr_array_map_clear`. -/
def clear (map : Table String V) : Table String V := empty map.entries.length

/-- `cxpr_context_lookup_struct_map`, `cxpr_context_lookup_array_map`; `some none` is not found. -/
def lookup (map : Table String V) (name : String) : Option (Option V) :=
  (findSlot map name).map fun slot => slot.bind fun slot => map.entries[slot]?.join.map (·.2)

/-! ### The invariant -/

structure Invariant (map : Table String V) : Prop where
  /-- No key is stored twice. -/
  distinct : ∀ (i j : Nat) k v w, map.entries[i]? = some (some (k, v)) → map.entries[j]? = some (some (k, w)) → i = j
  /-- A stored key is reached from its home slot without crossing an empty one. -/
  reach : ∀ (i : Nat) k v, map.entries[i]? = some (some (k, v)) →
    ∃ d < map.entries.length, (hashSlot k + d) % map.entries.length = i ∧
      ∀ e < d, ∃ kv, map.entries[(hashSlot k + e) % map.entries.length]? = some (some kv)
  count : map.count = map.entries.countP Option.isSome
  /-- A slot of the table is empty, and a probe comes to it from everywhere. -/
  ends : map.entries ≠ [] → ∀ start, ∃ d < map.entries.length, map.entries[(start + d) % map.entries.length]? = some none
  load : 4 * map.count ≤ 3 * map.entries.length
  capacity : map.entries ≠ [] → initialCapacity ≤ map.entries.length

section
variable {map : Table String V} {name : String} {last : String → Option V}

theorem invariant_init : Invariant (init : Table String V) := by
  refine ⟨?_, ?_, rfl, fun h => absurd rfl h, le_rfl, fun h => absurd rfl h⟩
  · intro i j k v w hi
    simp [init, empty] at hi
  · intro i k v hi
    simp [init, empty] at hi

theorem stores_init : Stores (init : Table String V) fun _ => none := by
  intro key v
  simp [init, empty]

theorem Invariant.table (h : Invariant map) (hne : map.entries ≠ []) : Hashmap.Invariant map :=
  ⟨h.distinct, h.reach, h.count, h.ends hne, h.load, h.capacity hne⟩

theorem invariant_of_table (h : Hashmap.Invariant map) : Invariant map :=
  ⟨h.distinct, h.reach, h.count, fun _ => h.ends, h.load, fun _ => h.capacity⟩

theorem entries_ne_nil (h : Hashmap.Invariant map) : map.entries ≠ [] := by
  intro hnil
  have hcapacity := h.capacity
  have hpos : initialCapacity = 32 := rfl
  rw [hnil, List.length_nil] at hcapacity
  omega

theorem findSlot_table (h : Hashmap.Invariant map) (name : String) :
    findSlot map name = (homeSlotFor hashSlot map.entries name).map some := by
  rw [findSlot, if_neg]
  rw [List.isEmpty_iff]
  exact entries_ne_nil h

theorem findSlot_cases (h : Hashmap.Invariant map) (hstores : Stores map last) (name : String) :
    (∃ slot v, findSlot map name = some (some slot) ∧ map.entries[slot]? = some (some (name, v)) ∧ last name = some v) ∨
      findSlot map name = some (some (freeSlot map.entries map.entries.length (hashSlot name % map.entries.length))) ∧
        map.entries[freeSlot map.entries map.entries.length (hashSlot name % map.entries.length)]? = some none ∧
        last name = none := by
  rw [findSlot_table h]
  cases hlast : last name with
  | some v =>
    obtain ⟨slot, hslot⟩ := List.mem_iff_getElem?.mp ((hstores name v).mpr hlast)
    rw [h.probing.homeSlotFor_some hslot]
    exact .inl ⟨slot, v, rfl, hslot, rfl⟩
  | none =>
    have hno : ∀ v, some (name, v) ∉ map.entries := by
      intro v hv
      rw [(hstores name v).mp hv] at hlast
      cases hlast
    obtain ⟨hslot, hnone⟩ := homeSlotFor_new h.free hno
    exact .inr ⟨congrArg (Option.map some) hslot, hnone, rfl⟩

theorem Invariant.lookup_eq (h : Invariant map) (hstores : Stores map last) (name : String) :
    lookup map name = some (last name) := by
  by_cases hnil : map.entries = []
  · have hlast : last name = none := by
      cases hlast : last name with
      | none => rfl
      | some v =>
        have hmem := (hstores name v).mpr hlast
        rw [hnil] at hmem
        exact absurd hmem List.not_mem_nil
    rw [lookup, findSlot, hnil, hlast]
    rfl
  · unfold lookup
    rcases findSlot_cases (h.table hnil) hstores name with ⟨slot, v, hfind, hslot, hlast⟩ | ⟨hfind, hslot, hlast⟩
    · rw [hfind, hlast, Option.map_some, Option.bind_some, hslot]
      rfl
    · rw [hfind, hlast, Option.map_some, Option.bind_some, hslot]
      rfl

theorem makeRoom_spec (h : Hashmap.Invariant map) (hstores : Stores map last)
    (halloc : map.full = true → map.entries.length ≤ sizeMax / 2) :
    ∃ map', makeRoom map = some map' ∧ Hashmap.Invariant map' ∧ Stores map' last ∧ map'.count = map.count ∧
      4 * (map'.count + 1) ≤ 3 * map'.entries.length := by
  unfold makeRoom
  by_cases hfull : map.full = true
  · have hpos : initialCapacity = 32 := rfl
    have hcapacity := h.capacity
    have hload := h.load
    obtain ⟨hp, hmem, hcount, hlength⟩ := h.probing.grow (by omega)
    rw [if_pos hfull, grow, if_neg (Nat.not_lt.mpr (halloc hfull))]
    refine ⟨_, rfl, Hashmap.invariant_of_probing hp (hcount.trans h.count.symm) ?_ ?_, ?_, rfl, ?_⟩
    · rw [hlength]
      show 4 * map.count ≤ _
      omega
    · rw [hlength]
      omega
    · intro key v
      rw [hmem]
      exact hstores key v
    · rw [hlength]
      show 4 * (map.count + 1) ≤ _
      omega
  · have hroom : ¬ 3 * map.entries.length < 4 * (map.count + 1) := by simpa [Table.full] using hfull
    rw [if_neg hfull]
    exact ⟨map, rfl, h, hstores, rfl, by omega⟩

theorem Invariant.allocate (h : Invariant map) (hstores : Stores map last) :
    Hashmap.Invariant (allocate map) ∧ Stores (ValueMap.allocate map) last := by
  unfold ValueMap.allocate
  by_cases hnil : map.entries = []
  · have hcount : map.count = 0 := by
      have hcount := h.count
      rw [hnil] at hcount
      exact hcount
    rw [if_pos (List.isEmpty_iff.mpr hnil)]
    refine ⟨Hashmap.invariant_of_probing (probing_replicate hashSlot _) ?_ ?_ ?_, ?_⟩
    · simp [List.countP_replicate, hcount]
    · simp [hcount]
    · simp
    · intro key v
      rw [← hstores key v, hnil]
      simp
  · rw [if_neg (by rwa [List.isEmpty_iff])]
    exact ⟨h.table hnil, hstores⟩

theorem put_spec (h : Hashmap.Invariant map) (hstores : Stores map last)
    (hroom : 4 * (map.count + 1) ≤ 3 * map.entries.length) (name : String) (value : V) :
    ∃ slot, findSlot map name = some (some slot) ∧ Hashmap.Invariant (put map slot name value) ∧
      Stores (put map slot name value) (update last name value) := by
  rcases findSlot_cases h hstores name with ⟨slot, v, hfind, hslot, hlast⟩ | ⟨hfind, hslot, hlast⟩
  · refine ⟨slot, hfind, ?_⟩
    rw [put, hslot]
    exact h.setAt hstores hslot value
  · refine ⟨_, hfind, ?_⟩
    rw [put, hslot]
    exact h.insert hstores hlast hroom value

variable {copy : V → V}

theorem Invariant.store (h : Invariant map) (hstores : Stores map last) (halloc : Allocated map)
    (hcopy : ∀ v, copy v = v) (name : String) (value : V) :
    ∃ map', store copy map name value = some map' ∧ Invariant map' ∧ Stores map' (update last name value) := by
  obtain ⟨htable, hstores'⟩ := h.allocate hstores
  have hlength : (ValueMap.allocate map).entries.length ≤ sizeMax / 2 := by
    have hpos : initialCapacity = 32 := rfl
    unfold ValueMap.allocate
    simp only [Allocated, Hashmap.entrySize, sizeMax] at halloc ⊢
    split
    · simp [hpos]
    · omega
  obtain ⟨roomy, hroomy, htable', hstores'', -, hroom⟩ := makeRoom_spec htable hstores' fun _ => hlength
  obtain ⟨slot, hslot, hput, hput'⟩ := put_spec htable' hstores'' hroom name value
  rw [ValueMap.store, hroomy]
  refine ⟨put roomy slot name value, ?_, invariant_of_table hput, hput'⟩
  simp only [hslot, Option.bind_some, Option.map_some, hcopy]

theorem cloneInto_spec (hcopy : ∀ v, copy v = v) {src : List (Option (String × V))} {dst : Table String V} {capacity : Nat}
    (h : Hashmap.Invariant dst) (hstores : Stores dst last) (hnodup : ((src.filterMap id).map Prod.fst).Nodup)
    (hnew : ∀ key v, some (key, v) ∈ src → last key = none)
    (hload : 4 * (dst.count + (src.filterMap id).length) ≤ 3 * capacity) (hcapacity : capacity ≤ sizeMax / 2) :
    ∃ dst', cloneInto copy src dst = some (dst', true) ∧ Hashmap.Invariant dst' ∧
      ∀ key v, some (key, v) ∈ dst'.entries ↔ some (key, v) ∈ src ∨ last key = some v := by
  induction src generalizing dst last with
  | nil => exact ⟨dst, rfl, h, fun key v => by rw [hstores key v]; simp⟩
  | cons entry src ih =>
    cases entry with
    | none =>
      obtain ⟨dst', hrun, h', hmem⟩ := ih h hstores hnodup (fun key v hkv => hnew key v (List.mem_cons_of_mem _ hkv)) hload
      refine ⟨dst', hrun, h', ?_⟩
      intro key v
      rw [hmem]
      simp
    | some entry =>
      obtain ⟨name, value⟩ := entry
      rw [List.filterMap_cons_some (rfl : id (some (name, value)) = some (name, value))] at hnodup hload
      rw [List.map_cons, List.nodup_cons] at hnodup
      rw [List.length_cons] at hload
      have hlast : last name = none := hnew name value List.mem_cons_self
      have hsmall : dst.full = true → dst.entries.length ≤ sizeMax / 2 := by
        intro hfull
        have hfull' : 3 * dst.entries.length < 4 * (dst.count + 1) := by simpa [Table.full] using hfull
        omega
      obtain ⟨roomy, hroomy, hroomy', hstores', hcount, hroom⟩ := makeRoom_spec h hstores hsmall
      rcases findSlot_cases hroomy' hstores' name with ⟨slot, v, hfind, hslot, hsome⟩ | ⟨hfind, -, -⟩
      · rw [hlast] at hsome
        cases hsome
      obtain ⟨hplaced, hplaced'⟩ := hroomy'.insert hstores' hlast hroom value
      have hother : ∀ key v, some (key, v) ∈ src → update last name value key = none := by
        intro key v hkv
        have hne : key ≠ name := by
          rintro rfl
          exact hnodup.1 (List.mem_map.mpr ⟨(key, v), List.mem_filterMap.mpr ⟨_, hkv, rfl⟩, rfl⟩)
        rw [update, if_neg hne]
        exact hnew key v (List.mem_cons_of_mem _ hkv)
      obtain ⟨dst', hrun, h', hmem⟩ := ih hplaced hplaced' hnodup.2 hother (by
        show 4 * (roomy.count + 1 + _) ≤ _
        omega)
      refine ⟨dst', ?_, h', ?_⟩
      · rw [cloneInto, hroomy]
        simp only [hfind, Option.bind_some, hcopy]
        exact hrun
      · intro key v
        rw [hmem, List.mem_cons, Option.some.injEq, Prod.mk.injEq, update]
        by_cases hkey : key = name
        · subst hkey
          rw [if_pos rfl, hlast]
          constructor
          · rintro (hkv | hv)
            · exact .inl (.inr hkv)
            · exact .inl (.inl ⟨rfl, (Option.some.inj hv).symm⟩)
          · rintro ((⟨-, rfl⟩ | hkv) | hv)
            · exact .inr rfl
            · exact .inl hkv
            · cases hv
        · rw [if_neg hkey]
          constructor
          · rintro (hkv | hv)
            · exact .inl (.inr hkv)
            · exact .inr hv
          · rintro ((⟨hname, -⟩ | hkv) | hv)
            · exact absurd hname hkey
            · exact .inl hkv
            · exact .inr hv

theorem Invariant.clone (h : Invariant map) (hstores : Stores map last) (halloc : Allocated map)
    (hcopy : ∀ v, copy v = v) :
    ∃ map', clone copy map = some (map', true) ∧ Invariant map' ∧ Stores map' last := by
  unfold ValueMap.clone
  by_cases hempty : map.count = 0
  · rw [if_pos (by rw [hempty]; simp)]
    refine ⟨init, rfl, invariant_init, ?_⟩
    intro key v
    have hall : ∀ x ∈ map.entries, ¬ x.isSome = true := List.countP_eq_zero.mp (h.count ▸ hempty)
    constructor
    · intro hmem
      exact absurd hmem List.not_mem_nil
    · intro hlast
      exact absurd rfl (hall _ ((hstores key v).mpr hlast))
  · have hne : map.entries ≠ [] := by
      intro hnil
      have hcount := h.count
      rw [hnil] at hcount
      exact hempty hcount
    rw [if_neg (by simp [hempty, hne])]
    obtain ⟨htable, hstores'⟩ := (invariant_init (V := V)).allocate stores_init
    have hcount : (ValueMap.allocate (init : Table String V)).count = 0 := rfl
    have hload : 4 * ((ValueMap.allocate (init : Table String V)).count + (map.entries.filterMap id).length) ≤
        3 * map.entries.length := by
      rw [hcount, length_filterMap_id, Nat.zero_add, ← h.count]
      exact h.load
    obtain ⟨map', hrun, hmap', hmem⟩ := cloneInto_spec hcopy htable hstores' (h.table hne).probing.nodup
      (fun _ _ _ => rfl) hload
      (by simp only [Allocated, Hashmap.entrySize, sizeMax] at halloc ⊢; omega)
    refine ⟨map', hrun, invariant_of_table hmap', ?_⟩
    intro key v
    rw [hmem, hstores key v]
    simp

/-- `last` after a removal. -/
def erase (last : String → Option V) (name : String) : String → Option V := fun k => if k = name then none else last k

theorem Invariant.remove (h : Invariant map) (hstores : Stores map last) (name : String) :
    ∃ map', remove map name = some map' ∧ Invariant map' ∧ Stores map' (erase last name) := by
  have hkept : last name = none → Stores map (erase last name) := by
    intro hlast key v
    rw [hstores key v, erase]
    by_cases hkey : key = name
    · rw [hkey, if_pos rfl, hlast]
    · rw [if_neg hkey]
  unfold ValueMap.remove
  by_cases hnil : map.entries = []
  · have hlast : last name = none := by
      have hlookup := h.lookup_eq hstores name
      rw [lookup, findSlot, hnil] at hlookup
      exact (Option.some.inj hlookup).symm
    rw [findSlot, hnil]
    exact ⟨map, rfl, h, hkept hlast⟩
  · have htable := h.table hnil
    rcases findSlot_cases htable hstores name with ⟨slot, v, hfind, hslot, hlast⟩ | ⟨hfind, hslot, hlast⟩
    · obtain ⟨map', hrun, hp, hmem, hcount, hless, hlength⟩ := htable.probing.removeAt htable.count htable.free hslot
      rw [hfind, Option.bind_some]
      simp only [hslot]
      refine ⟨map', hrun, invariant_of_table (Hashmap.invariant_of_probing hp hcount.symm ?_ ?_), ?_⟩
      · have hload := h.load
        omega
      · rw [hlength]
        exact htable.capacity
      · intro key w
        rw [hmem, hstores key w, erase]
        by_cases hkey : key = name
        · simp [hkey]
        · simp [hkey]
    · rw [hfind, Option.bind_some]
      simp only [hslot]
      exact ⟨map, rfl, h, hkept hlast⟩

theorem Invariant.clear (h : Invariant map) : Invariant (clear map) ∧ Stores (ValueMap.clear map) fun _ => none := by
  unfold ValueMap.clear
  by_cases hnil : map.entries = []
  · rw [hnil]
    exact ⟨invariant_init, stores_init⟩
  · obtain ⟨h', hstores⟩ := Hashmap.invariant_empty (D := V) (h.table hnil).capacity
    exact ⟨invariant_of_table h', hstores⟩

theorem Invariant.grow (h : Invariant map) (hstores : Stores map last) (halloc : Allocated map) (hne : map.entries ≠ []) :
    ∃ map', grow map = some map' ∧ Invariant map' ∧ Stores map' last := by
  obtain ⟨h', hstores', -⟩ := (h.table hne).grow hstores halloc
  rw [Hashmap.grow_eq halloc] at h' hstores'
  have hguard : ¬ sizeMax / 2 < map.entries.length := by
    simp only [Allocated, Hashmap.entrySize, sizeMax] at halloc ⊢
    omega
  rw [ValueMap.grow, if_neg hguard]
  exact ⟨_, rfl, invariant_of_table h', hstores'⟩

end

/-- One call on a map; the clone takes the place of the map. Only a map with a table grows. -/
inductive Op (V : Type) where
  | store (name : String) (value : V)
  | remove (name : String)
  | clear
  | grow
  | clone

def Op.apply (copy : V → V) : Op V → Table String V → Option (Table String V)
  | .store name value, map => ValueMap.store copy map name value
  | .remove name, map => ValueMap.remove map name
  | .clear, map => some (ValueMap.clear map)
  | .grow, map => if map.entries.isEmpty then some map else some ((ValueMap.grow map).getD map)
  | .clone, map => (ValueMap.clone copy map).map (·.1)

def Op.record : Op V → (String → Option V) → String → Option V
  | .store name value, last => update last name value
  | .remove name, last => erase last name
  | .clear, _ => fun _ => none
  | .grow, last | .clone, last => last

def Op.name : Op V → Option String
  | .store name _ | .remove name => some name
  | .clear | .grow | .clone => none

def run (copy : V → V) (ops : List (Op V)) : Option (Table String V) := ops.foldlM (fun map op => op.apply copy map) init

/-- The last value stored for a name since it was removed or the map was cleared. -/
def lastStored (ops : List (Op V)) : String → Option V := ops.foldl (fun last op => op.record last) fun _ => none

def AllocationsSucceed (copy : V → V) (ops : List (Op V)) : Prop :=
  ∀ ops', ops' <+: ops → ∀ map, run copy ops' = some map → Allocated map

section
variable {copy : V → V}

theorem Op.apply_spec {map : Table String V} {last : String → Option V} (h : Invariant map) (hstores : Stores map last)
    (halloc : Allocated map) (hcopy : ∀ v, copy v = v) (op : Op V) :
    ∃ map', op.apply copy map = some map' ∧ Invariant map' ∧ Stores map' (op.record last) := by
  cases op with
  | store name value => exact h.store hstores halloc hcopy name value
  | remove name => exact h.remove hstores name
  | clear => exact ⟨_, rfl, h.clear⟩
  | grow =>
    rw [apply]
    by_cases hnil : map.entries = []
    · rw [if_pos (List.isEmpty_iff.mpr hnil)]
      exact ⟨map, rfl, h, hstores⟩
    · obtain ⟨map', hgrow, h', hstores'⟩ := h.grow hstores halloc hnil
      rw [if_neg (by rwa [List.isEmpty_iff]), hgrow]
      exact ⟨map', rfl, h', hstores'⟩
  | clone =>
    obtain ⟨map', hclone, h', hstores'⟩ := h.clone hstores halloc hcopy
    rw [apply, hclone]
    exact ⟨map', rfl, h', hstores'⟩

theorem run_spec (hcopy : ∀ v, copy v = v) (ops : List (Op V)) (halloc : AllocationsSucceed copy ops) :
    ∃ map, run copy ops = some map ∧ Invariant map ∧ Stores map (lastStored ops) := by
  induction ops using List.reverseRecOn with
  | nil => exact ⟨init, rfl, invariant_init, stores_init⟩
  | append_singleton ops op ih =>
    obtain ⟨map, hrun, h, hstores⟩ := ih fun ops' hops' => halloc ops' (hops'.trans (List.prefix_append ops [op]))
    obtain ⟨map', happly, h', hstores'⟩ :=
      Op.apply_spec h hstores (halloc ops (List.prefix_append ops [op]) map hrun) hcopy op
    refine ⟨map', ?_, h', ?_⟩
    · rw [run, List.foldlM_append, ← run, hrun]
      simp [happly]
    · rw [lastStored, List.foldl_append, ← lastStored]
      exact hstores'

/-- A run ends in a map in order, where a lookup gives the last value stored, and a further call about one name leaves
    the lookups of the others alone. -/
def Orderly (copy : V → V) (ops : List (Op V)) : Prop :=
  ∃ map, run copy ops = some map ∧ Invariant map ∧ (∀ name, lookup map name = some (lastStored ops name)) ∧
    ∀ (op : Op V) name, op.name = some name →
      ∃ map', op.apply copy map = some map' ∧ ∀ other ≠ name, lookup map' other = lookup map other

theorem orderly_of_succeed (hcopy : ∀ v, copy v = v) (ops : List (Op V)) (halloc : AllocationsSucceed copy ops) :
    Orderly copy ops := by
  obtain ⟨map, hrun, h, hstores⟩ := run_spec hcopy ops halloc
  refine ⟨map, hrun, h, h.lookup_eq hstores, ?_⟩
  intro op name hname
  obtain ⟨map', happly, h', hstores'⟩ := Op.apply_spec h hstores (halloc ops List.prefix_rfl map hrun) hcopy op
  refine ⟨map', happly, ?_⟩
  intro other hother
  rw [h'.lookup_eq hstores', h.lookup_eq hstores]
  cases op with
  | store n value =>
    cases hname
    rw [Op.record, update, if_neg hother]
  | remove n =>
    cases hname
    rw [Op.record, erase, if_neg hother]
  | clear => cases hname
  | grow => cases hname
  | clone => cases hname

end

/-- The maps of structs and those of arrays stay in order, whatever is stored, removed, cleared, grown and cloned. -/
theorem maps_orderly :
    (∀ ops : List (Op (List (String × Value D))), AllocationsSucceed structValueNew ops → Orderly structValueNew ops) ∧
    ∀ ops : List (Op (List (Value D))), AllocationsSucceed arrayValueNew ops → Orderly arrayValueNew ops :=
  ⟨fun ops halloc => orderly_of_succeed structValueNew_eq ops halloc,
    fun ops halloc => orderly_of_succeed arrayValueNew_eq ops halloc⟩

/-- The three names have the last slot as their home, so their cluster wraps around the end of the table. -/
example :
    ((run id [.store "z" 1, .store "ay" 2, .store "bx" 3, .remove "z"]).bind fun map => lookup map "bx") = some (some 3) := by
  decide +kernel

end Cxpr.ValueMap
