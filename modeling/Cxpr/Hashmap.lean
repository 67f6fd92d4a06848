import Mathlib.Data.List.Induction
import Mathlib.Data.List.Infix
import Cxpr.Lib.ProbeInvariant
import Cxpr.Memory

/-! The hash maps of contexts (`src/hashmap/hashmap.c`): strings to doubles, with open addressing, a table that doubles
    at a load of three quarters, and no removal of single keys. -/

namespace Cxpr.Hashmap
open ProbeTable Memory
variable {D : Type}

def sizeMax : Nat := 2 ^ 64 - 1

/-- `sizeof(cxpr_hashmap_entry)`. -/
def entrySize : Nat := 16

def init : Table String D := empty initialCapacity

def grow (map : Table String D) : Table String D :=
  if sizeMax / 2 < map.entries.length then map else { map with entries := ProbeTable.grow hashSlot map.entries }

/-- `cxpr_hashmap_find_prehashed_slot`, and the loops of `cxpr_hashmap_find_prehashed_entry` and
    `cxpr_hashmap_get_prehashed`. -/
def findPrehashedSlot (map : Table String D) (key : String) (hash : UInt64) : Option Nat :=
  if map.count = 0 then none else probe map.entries key map.entries.length (hash.toNat % map.entries.length)

/-- `cxpr_hashmap_get_prehashed`; `none` is not found. -/
def getPrehashed (map : Table String D) (key : String) (hash : UInt64) : Option D :=
  (findPrehashedSlot map key hash).bind fun slot => map.entries[slot]?.join.map (·.2)

def get (map : Table String D) (key : String) : Option D := getPrehashed map key (hashString key)

/-- `cxpr_hashmap_set_prehashed`, which tells whether the key is new. The quotient of the count and a power of two is
    exact as long as the count has 53 bits. -/
def setPrehashed (map : Table String D) (key : String) (hash : UInt64) (value : D) : Table String D × Bool :=
  match findPrehashedSlot map key hash with
  | some slot => (map.setAt slot value, false)
  | none =>
    let map := if map.full then grow map else map
    let slot := freeSlot map.entries map.entries.length (hash.toNat % map.entries.length)
    (⟨map.entries.set slot (some (key, value)), map.count + 1⟩, true)

def set (map : Table String D) (key : String) (value : D) : Table String D × Bool :=
  setPrehashed map key (hashString key) value

def clear (map : Table String D) : Table String D := empty map.entries.length

def clone (map : Table String D) : Table String D :=
  ⟨map.entries.map (Option.map fun (key, value) => (key, value)), map.count⟩

/-! ### The invariant -/

structure Invariant (map : Table String D) : Prop where
  /-- No key is stored twice. -/
  distinct : ∀ (i j : Nat) k v w, map.entries[i]? = some (some (k, v)) → map.entries[j]? = some (some (k, w)) → i = j
  /-- A stored key is reached from its home slot without crossing an empty one. -/
  reach : ∀ (i : Nat) k v, map.entries[i]? = some (some (k, v)) →
    ∃ d < map.entries.length, (hashSlot k + d) % map.entries.length = i ∧
      ∀ e < d, ∃ kv, map.entries[(hashSlot k + e) % map.entries.length]? = some (some kv)
  count : map.count = map.entries.countP Option.isSome
  /-- From every slot a probe comes to an empty one. -/
  ends : ∀ start, ∃ d < map.entries.length, map.entries[(start + d) % map.entries.length]? = some none
  load : 4 * map.count ≤ 3 * map.entries.length
  capacity : initialCapacity ≤ map.entries.length

section
variable {map : Table String D} {key : String}

theorem Invariant.probing (h : Invariant map) : Probing hashSlot map.entries := ⟨h.distinct, h.reach⟩

theorem invariant_of_probing (hp : Probing hashSlot map.entries) (hcount : map.entries.countP Option.isSome = map.count)
    (hload : 4 * map.count ≤ 3 * map.entries.length) (hcapacity : initialCapacity ≤ map.entries.length) :
    Invariant map := by
  refine ⟨hp.distinct, hp.reach, hcount.symm, ?_, hload, hcapacity⟩
  intro start
  have hpos : initialCapacity = 32 := rfl
  have hfree : ∃ i : Nat, map.entries[i]? = some none := exists_none_of_countP_lt (by omega)
  obtain ⟨d, hd, hnone, -⟩ := exists_free hfree (fun _ => start) ""
  exact ⟨d, hd, hnone⟩

def Stores (map : Table String D) (last : String → Option D) : Prop :=
  ∀ key v, some (key, v) ∈ map.entries ↔ last key = some v

variable {last : String → Option D}

theorem Invariant.findPrehashedSlot_eq (h : Invariant map) (key : String) :
    findPrehashedSlot map key (hashString key) =
      probe map.entries key map.entries.length (hashSlot key % map.entries.length) := by
  unfold findPrehashedSlot
  split
  · rename_i hzero
    have hall : ∀ x ∈ map.entries, ¬ x.isSome = true := List.countP_eq_zero.mp (h.count ▸ hzero)
    have hno : ∀ v, some (key, v) ∉ map.entries := fun v hv => hall _ hv rfl
    have hcapacity := h.capacity
    have hpos : initialCapacity = 32 := rfl
    exact (probe_eq_none (exists_none_of_countP_lt (by rw [← h.count]; omega)) hno).symm
  · rfl

theorem Invariant.free (h : Invariant map) : ∃ i : Nat, map.entries[i]? = some none := by
  obtain ⟨d, -, hnone⟩ := h.ends 0
  exact ⟨_, hnone⟩

theorem Invariant.find_cases (h : Invariant map) (hstores : Stores map last) (key : String) :
    (∃ slot v, findPrehashedSlot map key (hashString key) = some slot ∧
        map.entries[slot]? = some (some (key, v)) ∧ last key = some v) ∨
      findPrehashedSlot map key (hashString key) = none ∧ last key = none := by
  rw [h.findPrehashedSlot_eq]
  cases hlast : last key with
  | some v =>
    obtain ⟨slot, hslot⟩ := List.mem_iff_getElem?.mp ((hstores key v).mpr hlast)
    exact .inl ⟨slot, v, probe_eq_some h.probing hslot, hslot, rfl⟩
  | none =>
    refine .inr ⟨probe_eq_none h.free ?_, rfl⟩
    intro v hv
    rw [(hstores key v).mp hv] at hlast
    cases hlast

theorem Invariant.get_eq (h : Invariant map) (hstores : Stores map last) (key : String) : get map key = last key := by
  unfold get getPrehashed
  rcases h.find_cases hstores key with ⟨slot, v, hfind, hslot, hlast⟩ | ⟨hfind, hlast⟩
  · rw [hfind, hlast, Option.bind_some, hslot]
    rfl
  · rw [hfind, hlast]
    rfl

def Allocated (map : Table String D) : Prop := entrySize * map.entries.length ≤ sizeMax

theorem grow_eq (halloc : Allocated map) :
    grow map = { map with entries := ProbeTable.grow hashSlot map.entries } := by
  have hguard : ¬ sizeMax / 2 < map.entries.length := by
    simp only [Allocated, entrySize, sizeMax] at halloc ⊢
    omega
  rw [grow, if_neg hguard]

theorem Invariant.grow (h : Invariant map) (hstores : Stores map last) (halloc : Allocated map) :
    Invariant (grow map) ∧ Stores (Hashmap.grow map) last ∧
      4 * (map.count + 1) ≤ 3 * (Hashmap.grow map).entries.length := by
  have hpos : initialCapacity = 32 := rfl
  have hcapacity := h.capacity
  have hload := h.load
  obtain ⟨hp, hmem, hcount, hlength⟩ := h.probing.grow (by omega)
  rw [grow_eq halloc]
  refine ⟨invariant_of_probing hp (hcount.trans h.count.symm) ?_ ?_, ?_, ?_⟩
  · rw [hlength]
    show 4 * map.count ≤ _
    omega
  · rw [hlength]
    omega
  · intro key v
    rw [hmem]
    exact hstores key v
  · rw [hlength]
    omega

/-- `last` after a write. -/
def update (last : String → Option D) (key : String) (value : D) : String → Option D :=
  fun k => if k = key then some value else last k

theorem Invariant.insert (h : Invariant map) (hstores : Stores map last) (hnew : last key = none)
    (hroom : 4 * (map.count + 1) ≤ 3 * map.entries.length) (value : D) :
    Invariant (⟨place hashSlot map.entries (key, value), map.count + 1⟩ : Table String D) ∧
      Stores (⟨place hashSlot map.entries (key, value), map.count + 1⟩ : Table String D) (update last key value) := by
  have hno : ∀ w, some (key, w) ∉ map.entries := by
    intro w hw
    rw [(hstores key w).mp hw] at hnew
    cases hnew
  obtain ⟨hp, hmem, hcount⟩ := h.probing.place h.free hno (v := value)
  refine ⟨invariant_of_probing hp (hcount.trans (by rw [← h.count])) ?_ ?_, ?_⟩
  · rw [length_place]
    exact hroom
  · rw [length_place]
    exact h.capacity
  · intro k v
    rw [hmem, hstores k v, update]
    by_cases hk : k = key
    · subst hk
      simp [hnew, eq_comm]
    · simp [hk]

theorem Invariant.setAt (h : Invariant map) (hstores : Stores map last) {slot : Nat} {v : D}
    (hslot : map.entries[slot]? = some (some (key, v))) (value : D) :
    Invariant (map.setAt slot value) ∧ Stores (map.setAt slot value) (update last key value) := by
  obtain ⟨hp, hmem, hcount⟩ := h.probing.setAt hslot value
  have hlength : (map.setAt slot value).entries.length = map.entries.length := List.length_modify ..
  refine ⟨invariant_of_probing hp (hcount.trans h.count.symm) ?_ ?_, ?_⟩
  · rw [hlength]
    exact h.load
  · rw [hlength]
    exact h.capacity
  · intro k w
    rw [hmem, hstores k w, update]
    by_cases hk : k = key
    · subst hk
      simp [eq_comm]
    · simp [hk]

theorem Invariant.set (h : Invariant map) (hstores : Stores map last) (halloc : Allocated map) (key : String)
    (value : D) : Invariant (set map key value).1 ∧ Stores (Hashmap.set map key value).1 (update last key value) := by
  unfold Hashmap.set setPrehashed
  rcases h.find_cases hstores key with ⟨slot, v, hfind, hslot, hlast⟩ | ⟨hfind, hlast⟩
  · rw [hfind]
    exact h.setAt hstores hslot value
  · rw [hfind]
    simp only
    by_cases hfull : map.full = true
    · rw [if_pos hfull]
      obtain ⟨h', hstores', hroom⟩ := h.grow hstores halloc
      have hcount : (Hashmap.grow map).count = map.count := by rw [grow_eq halloc]
      exact h'.insert hstores' hlast (by rw [hcount]; exact hroom) value
    · rw [if_neg hfull]
      have hroom : ¬ 3 * map.entries.length < 4 * (map.count + 1) := by simpa [Table.full] using hfull
      exact h.insert hstores hlast (by omega) value

theorem clone_eq (map : Table String D) : clone map = map := by
  unfold clone
  have hid : (Option.map fun x : String × D => (x.1, x.2)) = id := by
    funext x
    cases x <;> rfl
  simp only [hid, List.map_id]

theorem invariant_empty {n : Nat} (hn : initialCapacity ≤ n) :
    Invariant (empty n : Table String D) ∧ Stores (empty n : Table String D) fun _ => none := by
  refine ⟨invariant_of_probing (probing_replicate hashSlot n) ?_ ?_ ?_, ?_⟩
  · simp [empty, List.countP_replicate]
  · simp [empty]
  · simpa [empty] using hn
  · intro key v
    simp [empty]

end

/-- One call on a map. The hash given to `set_prehashed` is that of the key; the clone takes the place of the map. -/
inductive Op (D : Type) where
  | set (key : String) (value : D)
  | setPrehashed (key : String) (value : D)
  | grow
  | clear
  | clone

def Op.apply : Op D → Table String D → Table String D
  | .set key value, map => (Hashmap.set map key value).1
  | .setPrehashed key value, map => (Hashmap.setPrehashed map key (hashString key) value).1
  | .grow, map => Hashmap.grow map
  | .clear, map => Hashmap.clear map
  | .clone, map => Hashmap.clone map

def Op.record : Op D → (String → Option D) → String → Option D
  | .set key value, last | .setPrehashed key value, last => update last key value
  | .clear, _ => fun _ => none
  | .grow, last | .clone, last => last

def run (ops : List (Op D)) : Table String D := ops.foldl (fun map op => op.apply map) init

def lastSet (ops : List (Op D)) : String → Option D := ops.foldl (fun last op => op.record last) fun _ => none

def AllocationsSucceed (ops : List (Op D)) : Prop := ∀ ops', ops' <+: ops → Allocated (run ops')

theorem Op.apply_spec {map : Table String D} {last : String → Option D} (h : Invariant map) (hstores : Stores map last)
    (halloc : Allocated map) (op : Op D) : Invariant (op.apply map) ∧ Stores (op.apply map) (op.record last) := by
  cases op with
  | set key value => exact h.set hstores halloc key value
  | setPrehashed key value => exact h.set hstores halloc key value
  | grow =>
    obtain ⟨h', hstores', -⟩ := h.grow hstores halloc
    exact ⟨h', hstores'⟩
  | clear => exact invariant_empty h.capacity
  | clone =>
    rw [apply, clone_eq]
    exact ⟨h, hstores⟩

theorem run_spec (ops : List (Op D)) (halloc : AllocationsSucceed ops) :
    Invariant (run ops) ∧ Stores (run ops) (lastSet ops) := by
  induction ops using List.reverseRecOn with
  | nil => exact invariant_empty le_rfl
  | append_singleton ops op ih =>
    obtain ⟨h, hstores⟩ := ih fun ops' hops' => halloc ops' (hops'.trans (List.prefix_append ops [op]))
    have hnow := halloc ops (List.prefix_append ops [op])
    rw [run, lastSet, List.foldl_append, List.foldl_append]
    exact Op.apply_spec h hstores hnow op

/-- After every run of calls whose allocations succeed, the table can be probed, and a lookup returns the last value
    set for the key. -/
theorem run_invariant (ops : List (Op D)) (halloc : AllocationsSucceed ops) :
    Invariant (run ops) ∧ ∀ key, get (run ops) key = lastSet ops key := by
  obtain ⟨h, hstores⟩ := run_spec ops halloc
  exact ⟨h, h.get_eq hstores⟩

theorem run_invariant_clone :
    get (run [.set "a" (1 : Int), .setPrehashed "b" 2, .set "a" 3, .clone]) "a" = some 3 := by
  have halloc : AllocationsSucceed [.set "a" (1 : Int), .setPrehashed "b" 2, .set "a" 3, .clone] := by
    intro ops' h
    have hmem := (List.mem_inits _ _).mpr h
    simp only [List.inits, List.map_cons, List.map_nil, List.mem_cons, List.not_mem_nil, or_false] at hmem
    rcases hmem with rfl | rfl | rfl | rfl | rfl <;> unfold Allocated <;> decide +kernel
  exact (run_invariant _ halloc).2 "a"

end Cxpr.Hashmap
