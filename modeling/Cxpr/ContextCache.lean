import Cxpr.Hashmap

/-! The entry caches in front of the variables and parameters of a context (`src/context/cache.c`). Both caches trust a
    bucket by the address of the table. An address comes back when a table is freed, so a bucket may outlive its table:
    the pointer cache then compares the key in the slot, the hash cache does not. -/

namespace Cxpr.ContextCache
open ProbeTable Memory Hashmap
variable {D : Type}

/-! ### Caches -/

def cacheSize : Nat := 64

/-- `cxpr_context_entry_cache`. The hash cache keeps the key of the table entry, the pointer cache the address that the
    caller's string had. -/
structure Bucket (K : Type) where
  keyRef : Option K := none
  hash : UInt64 := 0
  slot : Nat := 0
  entriesBase : Option Addr := none

structure CachedMap (D : Type) where
  base : Addr
  table : Table String D
  cache : List (Bucket String)
  pointerCache : List (Bucket Addr)

def clearEntryCache (K : Type) : List (Bucket K) := List.replicate cacheSize {}

def cacheBucket (hash : UInt64) : Nat := hash.toNat % cacheSize

def pointerCacheBucket (key : Addr) : Nat := key / 16 % cacheSize

/-- The key in a slot. A bucket may name a slot of an earlier table; no later table is smaller. -/
def keyAt (table : Table String D) (slot : Nat) : Option String := table.entries[slot]?.join.map (·.1)

namespace CachedMap

/-- `cxpr_hashmap_find_prehashed_slot` with the hash of the key. -/
def find (m : CachedMap D) (name : String) : Option Nat := findPrehashedSlot m.table name (hashString name)

/-- `cxpr_context_lookup_pointer_cached_entry`. -/
def lookupPointerCachedEntry (m : CachedMap D) (key : Addr) (name : String) : Option Nat :=
  match m.pointerCache[pointerCacheBucket key]? with
  | none => none
  | some bucket =>
    if bucket.entriesBase = some m.base ∧ bucket.keyRef = some key ∧ keyAt m.table bucket.slot = some name then some bucket.slot
    else none

def lookupCachedEntry (m : CachedMap D) (name : String) (hash : UInt64) : Option Nat × CachedMap D :=
  match m.cache[cacheBucket hash]? with
  | none => (none, m)
  | some bucket =>
    -- the key in the slot is not looked at
    if bucket.entriesBase = some m.base ∧ bucket.hash = hash ∧ bucket.keyRef = some name then (some bucket.slot, m)
    else
      match findPrehashedSlot m.table name hash with
      | some slot => (some slot, { m with cache := m.cache.set (cacheBucket hash) ⟨some name, hash, slot, some m.base⟩ })
      | none => (none, { m with cache := m.cache.set (cacheBucket hash) {} })

def refreshCache (m : CachedMap D) (name : String) (hash : UInt64) : CachedMap D :=
  let bucket : Bucket String :=
    match findPrehashedSlot m.table name hash with
    | some slot => ⟨some name, hash, slot, some m.base⟩
    | none => ⟨none, hash, 0, none⟩
  { m with cache := m.cache.set (cacheBucket hash) bucket }

def refreshPointerCache (m : CachedMap D) (key : Addr) (slot : Nat) : CachedMap D :=
  { m with pointerCache := m.pointerCache.set (pointerCacheBucket key) ⟨some key, 0, slot, some m.base⟩ }

def setAt (m : CachedMap D) (slot : Nat) (value : D) : CachedMap D := { m with table := m.table.setAt slot value }

/-- `cxpr_hashmap_set_prehashed` on the map; a table that grows moves to `fresh`. -/
def setPrehashed (m : CachedMap D) (name : String) (value : D) (fresh : Addr) : CachedMap D :=
  let table := (Hashmap.setPrehashed m.table name (hashString name) value).1
  { m with
    base := if table.entries.length = m.table.entries.length then m.base else fresh
    table := table }

def setHashed (m : CachedMap D) (key : Addr) (name : String) (value : D) (fresh : Addr) : CachedMap D :=
  match m.lookupPointerCachedEntry key name with
  | some slot => m.setAt slot value
  | none =>
    match m.lookupCachedEntry name (hashString name) with
    | (some slot, m) => (m.refreshPointerCache key slot).setAt slot value
    | (none, m) =>
      let m := (m.setPrehashed name value fresh).refreshCache name (hashString name)
      match m.find name with
      | some slot => m.refreshPointerCache key slot
      | none => m

/-- The lookup in `cxpr_context_get_typed` and `cxpr_context_get_param`. -/
def lookup (m : CachedMap D) (key : Addr) (name : String) : Option Nat × CachedMap D :=
  match m.lookupPointerCachedEntry key name with
  | some slot => (some slot, m)
  | none =>
    match m.lookupCachedEntry name (hashString name) with
    | (some slot, m) => (some slot, m.refreshPointerCache key slot)
    | (none, m) => (none, m)

/-- The part of `cxpr_context_clear` for one map. -/
def clear (m : CachedMap D) : CachedMap D :=
  ⟨m.base, Hashmap.clear m.table, clearEntryCache String, clearEntryCache Addr⟩

def new (base : Addr) : CachedMap D := ⟨base, init, clearEntryCache String, clearEntryCache Addr⟩

/-- `cxpr_context_clone`: the table is copied, the caches are not. -/
def clone (m : CachedMap D) (fresh : Addr) : CachedMap D :=
  ⟨fresh, Hashmap.clone m.table, clearEntryCache String, clearEntryCache Addr⟩

end CachedMap

/-! ### Keys and slots -/

section
variable {table : Table String D} {name key : String} {slot : Nat}

theorem entry_of_keyAt (h : keyAt table slot = some key) : ∃ v, table.entries[slot]? = some (some (key, v)) := by
  obtain ⟨⟨k, v⟩, hjoin, rfl⟩ := Option.map_eq_some_iff.mp h
  exact ⟨v, Option.join_eq_some_iff.mp hjoin⟩

theorem keyAt_of_entry {v : D} (h : table.entries[slot]? = some (some (key, v))) : keyAt table slot = some key := by
  rw [keyAt, h, Option.join_some, Option.map_some]

theorem keyAt_probe {fuel start : Nat} (h : probe table.entries key fuel start = some slot) : keyAt table slot = some key := by
  induction fuel generalizing start with
  | zero => cases h
  | succ fuel ih =>
    rw [probe] at h
    split at h
    · rename_i k v hentry
      split at h
      · rename_i hk
        cases h
        exact keyAt_of_entry (hk ▸ hentry)
      · exact ih h
    · cases h

theorem find_eq_some_iff (h : Invariant table) :
    findPrehashedSlot table key (hashString key) = some slot ↔ keyAt table slot = some key := by
  rw [h.findPrehashedSlot_eq]
  constructor
  · exact keyAt_probe
  · intro hkey
    obtain ⟨v, hentry⟩ := entry_of_keyAt hkey
    exact probe_eq_some h.probing hentry

theorem stores_get (h : Invariant table) : Stores table (Hashmap.get table) := by
  intro k v
  constructor
  · intro hmem
    obtain ⟨slot, hslot⟩ := List.mem_iff_getElem?.mp hmem
    have hfind := (find_eq_some_iff h).mpr (keyAt_of_entry hslot)
    simp [Hashmap.get, getPrehashed, hfind, hslot]
  · intro hget
    obtain ⟨slot, hfind, hvalue⟩ := Option.bind_eq_some_iff.mp hget
    obtain ⟨w, hentry⟩ := entry_of_keyAt ((find_eq_some_iff h).mp hfind)
    rw [hentry] at hvalue
    cases hvalue
    exact List.mem_of_getElem? hentry

theorem keyAt_setAt (i : Nat) (value : D) : keyAt (table.setAt i value) slot = keyAt table slot := by
  unfold keyAt Table.setAt
  rw [List.getElem?_modify]
  by_cases hi : i = slot
  · subst hi
    rcases table.entries[i]? with _ | _ | ⟨k, v⟩ <;> simp
  · simp [hi]

theorem invariant_setAt (h : Invariant table) (halloc : Allocated table) {i : Nat} (hkey : keyAt table i = some key) (value : D) :
    Invariant (table.setAt i value) := by
  have hset := (h.set (stores_get h) halloc key value).1
  rw [Hashmap.set, Hashmap.setPrehashed, (find_eq_some_iff h).mpr hkey] at hset
  exact hset

theorem keyAt_place (hfree : ∃ i : Nat, table.entries[i]? = some none) (value : D) (hkey : keyAt table slot = some key) :
    keyAt ⟨place hashSlot table.entries (name, value), table.count + 1⟩ slot = some key := by
  obtain ⟨d, -, hslot, hnone, -⟩ := freeSlot_spec hfree hashSlot name
  obtain ⟨v, hentry⟩ := entry_of_keyAt hkey
  apply keyAt_of_entry
  show (place hashSlot table.entries (name, value))[slot]? = _
  rw [place, hslot, List.getElem?_set_ne, hentry]
  rintro rfl
  rw [hnone] at hentry
  cases hentry

def roomy (table : Table String D) : Table String D := if table.full then grow table else table

theorem roomy_spec (h : Invariant table) (halloc : Allocated table) :
    Invariant (roomy table) ∧ Stores (roomy table) (Hashmap.get table) ∧
      4 * ((roomy table).count + 1) ≤ 3 * (roomy table).entries.length := by
  unfold roomy
  split
  · obtain ⟨hgrown, hstores, hroom⟩ := h.grow (stores_get h) halloc
    have hcount : (grow table).count = table.count := by rw [grow_eq halloc]
    exact ⟨hgrown, hstores, by rw [hcount]; exact hroom⟩
  · rename_i hfull
    have hroom : ¬ 3 * table.entries.length < 4 * (table.count + 1) := by simpa [Table.full] using hfull
    exact ⟨h, stores_get h, by omega⟩

theorem length_roomy (h : Invariant table) (halloc : Allocated table) :
    (roomy table).entries.length = table.entries.length ↔ table.full = false := by
  have hcapacity := h.capacity
  have hpos : initialCapacity = 32 := rfl
  unfold roomy
  cases hfull : table.full with
  | true =>
    have hcount := h.count
    have hload := h.load
    obtain ⟨-, -, -, hlength⟩ := h.probing.grow (by omega)
    rw [if_pos rfl, grow_eq halloc]
    simp only [hlength, Bool.true_eq_false, iff_false]
    omega
  | false => simp

theorem setPrehashed_new (hnew : findPrehashedSlot table name (hashString name) = none) (value : D) :
    (Hashmap.setPrehashed table name (hashString name) value).1 =
      ⟨place hashSlot (roomy table).entries (name, value), (roomy table).count + 1⟩ := by
  rw [Hashmap.setPrehashed, hnew]
  rfl

theorem get_eq_none (hnew : findPrehashedSlot table name (hashString name) = none) : Hashmap.get table name = none := by
  rw [Hashmap.get, getPrehashed, hnew]
  rfl

theorem setPrehashed_spec (h : Invariant table) (halloc : Allocated table)
    (hnew : findPrehashedSlot table name (hashString name) = none) (value : D) :
    Invariant (Hashmap.setPrehashed table name (hashString name) value).1 ∧
      (∃ slot, keyAt (Hashmap.setPrehashed table name (hashString name) value).1 slot = some name) ∧
      ∀ k slot, keyAt (roomy table) slot = some k →
        keyAt (Hashmap.setPrehashed table name (hashString name) value).1 slot = some k := by
  obtain ⟨hroomy, hstores, hroom⟩ := roomy_spec h halloc
  obtain ⟨hinv, hstores'⟩ := hroomy.insert hstores (get_eq_none hnew) hroom value
  rw [setPrehashed_new hnew]
  refine ⟨hinv, ?_, fun k slot hkey => keyAt_place hroomy.free value hkey⟩
  obtain ⟨slot, hslot⟩ := List.mem_iff_getElem?.mp ((hstores' name value).mpr (by simp [update]))
  exact ⟨slot, keyAt_of_entry hslot⟩

theorem exists_keyAt_roomy (h : Invariant table) (halloc : Allocated table) (hkey : keyAt table slot = some key) :
    ∃ slot', keyAt (roomy table) slot' = some key := by
  obtain ⟨v, hentry⟩ := entry_of_keyAt hkey
  obtain ⟨-, hstores, -⟩ := roomy_spec h halloc
  have hget := (stores_get h key v).mp (List.mem_of_getElem? hentry)
  obtain ⟨slot', hslot'⟩ := List.mem_iff_getElem?.mp ((hstores key v).mpr hget)
  exact ⟨slot', keyAt_of_entry hslot'⟩

end

/-! ### The caches -/

namespace CachedMap

def Transparent (m : CachedMap D) : Prop :=
  (∀ key name slot, m.lookupPointerCachedEntry key name = some slot → m.find name = some slot) ∧
    ∀ name slot, (m.lookupCachedEntry name (hashString name)).1 = some slot → m.find name = some slot

structure Recorded (m : CachedMap D) : Prop where
  invariant : Invariant m.table
  length : m.cache.length = cacheSize
  stored : ∀ (i : Nat) (b : Bucket String) (k : String), m.cache[i]? = some b → b.keyRef = some k →
    b.hash = hashString k ∧ cacheBucket (hashString k) = i ∧ ∃ slot, keyAt m.table slot = some k

def Current (m : CachedMap D) : Prop :=
  ∀ (i : Nat) (b : Bucket String) (k : String), m.cache[i]? = some b → b.entriesBase = some m.base → b.keyRef = some k →
    keyAt m.table b.slot = some k

section
variable {m : CachedMap D} {name : String} {key : Addr} {slot : Nat}

theorem cacheBucket_lt (hash : UInt64) : cacheBucket hash < cacheSize := Nat.mod_lt _ (by decide)

theorem Recorded.find_iff (h : Recorded m) : m.find name = some slot ↔ keyAt m.table slot = some name := find_eq_some_iff h.invariant

theorem lookupPointer_eq_some (h : Recorded m) (hhit : m.lookupPointerCachedEntry key name = some slot) : m.find name = some slot := by
  unfold lookupPointerCachedEntry at hhit
  split at hhit
  · cases hhit
  split at hhit
  · rename_i hbucket
    cases hhit
    exact h.find_iff.mpr hbucket.2.2
  · cases hhit

theorem transparent_iff (h : Recorded m) : Transparent m ↔ Current m := by
  constructor
  · rintro ⟨-, hcached⟩ i b k hb hbase hkey
    obtain ⟨hhash, rfl, -⟩ := h.stored i b k hb hkey
    refine h.find_iff.mp (hcached k b.slot ?_)
    rw [lookupCachedEntry, hb]
    simp [hbase, hhash, hkey]
  · intro hcurrent
    refine ⟨fun key name slot => lookupPointer_eq_some h, fun name slot hhit => ?_⟩
    unfold lookupCachedEntry at hhit
    split at hhit
    · cases hhit
    rename_i b hb
    split at hhit
    · rename_i hbucket
      cases hhit
      exact h.find_iff.mpr (hcurrent _ b name hb hbucket.1 hbucket.2.2)
    · split at hhit
      · rename_i hfind
        cases hhit
        exact hfind
      · cases hhit

theorem Recorded.setBucket (h : Recorded m) {i : Nat} {b : Bucket String} (hb : ∀ k, b.keyRef = some k →
    b.hash = hashString k ∧ cacheBucket (hashString k) = i ∧ ∃ slot, keyAt m.table slot = some k) :
    Recorded { m with cache := m.cache.set i b } := by
  refine ⟨h.invariant, by simpa using h.length, ?_⟩
  intro j b' k hb' hkey
  rw [List.getElem?_set] at hb'
  split at hb'
  · rename_i hij
    subst hij
    split at hb'
    · cases hb'
      exact hb k hkey
    · cases hb'
  · exact h.stored j b' k hb' hkey

theorem Current.setBucket (h : Current m) {i : Nat} {b : Bucket String}
    (hb : ∀ k, b.entriesBase = some m.base → b.keyRef = some k → keyAt m.table b.slot = some k) :
    Current { m with cache := m.cache.set i b } := by
  intro j b' k hb' hbase hkey
  rw [List.getElem?_set] at hb'
  split at hb'
  · split at hb'
    · cases hb'
      exact hb k hbase hkey
    · cases hb'
  · exact h j b' k hb' hbase hkey

theorem lookupCached_spec (h : Recorded m) (hcurrent : Current m) (name : String) :
    (m.lookupCachedEntry name (hashString name)).1 = m.find name ∧
      (m.lookupCachedEntry name (hashString name)).2.base = m.base ∧
      (m.lookupCachedEntry name (hashString name)).2.table = m.table ∧
      (∀ i ≠ cacheBucket (hashString name), (m.lookupCachedEntry name (hashString name)).2.cache[i]? = m.cache[i]?) ∧
      Recorded (m.lookupCachedEntry name (hashString name)).2 ∧ Current (m.lookupCachedEntry name (hashString name)).2 := by
  have hlt : cacheBucket (hashString name) < m.cache.length := h.length ▸ cacheBucket_lt _
  have hother : ∀ (b : Bucket String) (i : Nat), i ≠ cacheBucket (hashString name) →
      (m.cache.set (cacheBucket (hashString name)) b)[i]? = m.cache[i]? := by
    intro b i hi
    rw [List.getElem?_set_ne hi.symm]
  unfold lookupCachedEntry
  rw [List.getElem?_eq_getElem hlt]
  dsimp only
  split
  · rename_i hbucket
    have hkey := hcurrent _ _ name (List.getElem?_eq_getElem hlt) hbucket.1 hbucket.2.2
    exact ⟨(h.find_iff.mpr hkey).symm, rfl, rfl, fun i _ => rfl, h, hcurrent⟩
  · split
    · rename_i slot hfind
      refine ⟨hfind.symm, rfl, rfl, hother _, h.setBucket ?_, hcurrent.setBucket ?_⟩
      · rintro k hk
        cases hk
        exact ⟨rfl, rfl, slot, h.find_iff.mp hfind⟩
      · rintro k - hk
        cases hk
        exact h.find_iff.mp hfind
    · rename_i hfind
      refine ⟨hfind.symm, rfl, rfl, hother _, h.setBucket ?_, hcurrent.setBucket ?_⟩
      · rintro k hk
        cases hk
      · rintro k - hk
        cases hk

theorem Recorded.refreshPointerCache (h : Recorded m) (key : Addr) (slot : Nat) : Recorded (m.refreshPointerCache key slot) :=
  ⟨h.invariant, h.length, h.stored⟩

theorem Recorded.setAt (h : Recorded m) (halloc : Allocated m.table) (hfind : m.find name = some slot) (value : D) :
    Recorded (m.setAt slot value) := by
  refine ⟨invariant_setAt h.invariant halloc (h.find_iff.mp hfind) value, h.length, ?_⟩
  intro i b k hb hkey
  obtain ⟨hhash, hindex, slot', hslot'⟩ := h.stored i b k hb hkey
  exact ⟨hhash, hindex, slot', (keyAt_setAt slot value).trans hslot'⟩

theorem Current.setAt (h : Current m) (slot : Nat) (value : D) : Current (m.setAt slot value) := by
  intro i b k hb hbase hkey
  exact (keyAt_setAt slot value).trans (h i b k hb hbase hkey)

/-- The write grows the table and moves it to an address with which a bucket of the hash cache still records a slot that
    the grown table gives to no key or to another one. The bucket of the written name itself is refreshed. -/
def Revives (m : CachedMap D) (name : String) (fresh : Addr) : Prop :=
  m.find name = none ∧ m.table.full = true ∧ ∃ (i : Nat) (b : Bucket String) (k : String),
    i ≠ cacheBucket (hashString name) ∧ m.cache[i]? = some b ∧ b.entriesBase = some fresh ∧ b.keyRef = some k ∧
      keyAt (grow m.table) b.slot ≠ some k

theorem setNew_eq (h : Recorded m) (halloc : Allocated m.table) (hnew : m.find name = none) (value : D) (fresh : Addr) :
    ∃ table slot, table = (Hashmap.setPrehashed m.table name (hashString name) value).1 ∧ keyAt table slot = some name ∧
      (m.setPrehashed name value fresh).refreshCache name (hashString name) =
        ⟨if m.table.full then fresh else m.base, table, m.cache.set (cacheBucket (hashString name))
          ⟨some name, hashString name, slot, some (if m.table.full then fresh else m.base)⟩, m.pointerCache⟩ := by
  obtain ⟨hinv, ⟨slot, hslot⟩, -⟩ := setPrehashed_spec h.invariant halloc hnew value
  refine ⟨_, slot, rfl, hslot, ?_⟩
  have hbase : (m.setPrehashed name value fresh).base = if m.table.full then fresh else m.base := by
    have hlength : (Hashmap.setPrehashed m.table name (hashString name) value).1.entries.length = (roomy m.table).entries.length := by
      rw [setPrehashed_new hnew, length_place]
    simp only [setPrehashed, hlength, length_roomy h.invariant halloc]
    cases m.table.full <;> rfl
  have hfind : findPrehashedSlot (m.setPrehashed name value fresh).table name (hashString name) = some slot :=
    (find_eq_some_iff hinv).mpr hslot
  unfold refreshCache
  rw [hfind, hbase]
  simp only [setPrehashed]

theorem keyAt_setPrehashed_iff {table : Table String D} (h : Invariant table) (halloc : Allocated table)
    (hnew : findPrehashedSlot table name (hashString name) = none) (value : D) {k : String} (hstored : ∃ slot, keyAt table slot = some k) :
    keyAt (Hashmap.setPrehashed table name (hashString name) value).1 slot = some k ↔ keyAt (roomy table) slot = some k := by
  obtain ⟨hinv, -, hkept⟩ := setPrehashed_spec h halloc hnew value
  obtain ⟨slot₀, hslot₀⟩ := hstored
  obtain ⟨slot₁, hslot₁⟩ := exists_keyAt_roomy h halloc hslot₀
  constructor
  · intro hslot
    have hsame := ((find_eq_some_iff hinv).mpr hslot).symm.trans ((find_eq_some_iff hinv).mpr (hkept k slot₁ hslot₁))
    exact Option.some.inj hsame ▸ hslot₁
  · exact hkept k slot

theorem setNew_spec (h : Recorded m) (hcurrent : Current m) (halloc : Allocated m.table) (hnew : m.find name = none)
    (value : D) (fresh : Addr) :
    Recorded ((m.setPrehashed name value fresh).refreshCache name (hashString name)) ∧
      (Current ((m.setPrehashed name value fresh).refreshCache name (hashString name)) ↔ ¬ Revives m name fresh) := by
  obtain ⟨table, slot, rfl, hslot, heq⟩ := setNew_eq h halloc hnew value fresh
  rw [heq]
  obtain ⟨hinv, -, hkept⟩ := setPrehashed_spec h.invariant halloc hnew value
  have hlt : cacheBucket (hashString name) < m.cache.length := h.length ▸ cacheBucket_lt _
  have hiff : ∀ {slot : Nat} {k : String}, (∃ slot, keyAt m.table slot = some k) →
      (keyAt (Hashmap.setPrehashed m.table name (hashString name) value).1 slot = some k ↔
        keyAt (roomy m.table) slot = some k) :=
    fun hstored => keyAt_setPrehashed_iff h.invariant halloc hnew value hstored
  refine ⟨⟨hinv, by simpa using h.length, ?_⟩, ?_⟩
  · intro i b k hb hkey
    by_cases hi : cacheBucket (hashString name) = i
    · subst hi
      rw [List.getElem?_set_self hlt] at hb
      cases hb
      cases hkey
      exact ⟨rfl, rfl, slot, hslot⟩
    · rw [List.getElem?_set_ne hi] at hb
      obtain ⟨hhash, hindex, slot', hslot'⟩ := h.stored i b k hb hkey
      obtain ⟨slot'', hslot''⟩ := exists_keyAt_roomy h.invariant halloc hslot'
      exact ⟨hhash, hindex, slot'', hkept k slot'' hslot''⟩
  · cases hfull : m.table.full with
    | false =>
      have hroomy : roomy m.table = m.table := by simp [roomy, hfull]
      refine iff_of_true ?_ fun hrevives => Bool.false_ne_true (hfull.symm.trans hrevives.2.1)
      intro i b k hb hbase hkey
      by_cases hi : cacheBucket (hashString name) = i
      · subst hi
        rw [List.getElem?_set_self hlt] at hb
        cases hb
        cases hkey
        exact hslot
      · rw [List.getElem?_set_ne hi] at hb
        refine hkept k b.slot ?_
        rw [hroomy]
        exact hcurrent i b k hb hbase hkey
    | true =>
      have hroomy : roomy m.table = grow m.table := by simp [roomy, hfull]
      constructor
      · rintro hcurrent' ⟨-, -, i, b, k, hi, hb, hbase, hkey, hmoved⟩
        obtain ⟨-, -, hstored⟩ := h.stored i b k hb hkey
        have hat := hcurrent' i b k ((List.getElem?_set_ne hi.symm).trans hb) hbase hkey
        exact hmoved (hroomy ▸ (hiff hstored).mp hat)
      · intro hrevives i b k hb hbase hkey
        by_cases hi : cacheBucket (hashString name) = i
        · subst hi
          rw [List.getElem?_set_self hlt] at hb
          cases hb
          cases hkey
          exact hslot
        · rw [List.getElem?_set_ne hi] at hb
          obtain ⟨-, -, hstored⟩ := h.stored i b k hb hkey
          refine (hiff hstored).mpr ?_
          rw [hroomy]
          by_contra hmoved
          exact hrevives ⟨hnew, hfull, i, b, k, fun h => hi h.symm, hb, hbase, hkey, hmoved⟩

theorem setHashed_spec (h : Recorded m) (hcurrent : Current m) (halloc : Allocated m.table) (key : Addr) (name : String) (value : D)
    (fresh : Addr) :
    Recorded (m.setHashed key name value fresh) ∧ (Current (m.setHashed key name value fresh) ↔ ¬ Revives m name fresh) := by
  unfold setHashed
  split
  · rename_i slot hhit
    have hfind := lookupPointer_eq_some h hhit
    refine ⟨h.setAt halloc hfind value, iff_of_true (hcurrent.setAt slot value) fun hrevives => ?_⟩
    rw [hrevives.1] at hfind
    cases hfind
  obtain ⟨hresult, hbase, htable, hcache, hrecorded, hcurrent'⟩ := lookupCached_spec h hcurrent name
  split
  · rename_i slot m' heq
    rw [heq] at hresult hbase htable hrecorded hcurrent'
    have hfind : m'.find name = some slot := by rw [find, htable]; exact hresult.symm
    have halloc' : Allocated m'.table := htable.symm ▸ halloc
    refine ⟨(hrecorded.refreshPointerCache key slot).setAt halloc' hfind value, iff_of_true (Current.setAt hcurrent' slot value) fun hrevives => ?_⟩
    rw [hrevives.1] at hresult
    cases hresult
  · rename_i m' heq
    rw [heq] at hresult hbase htable hcache hrecorded hcurrent'
    have hnew : m'.find name = none := by rw [find, htable]; exact hresult.symm
    obtain ⟨hrecorded', hiff⟩ := setNew_spec hrecorded hcurrent' (htable.symm ▸ halloc) hnew value fresh
    have hsame : Revives m' name fresh ↔ Revives m name fresh := by
      unfold Revives find
      dsimp only at htable
      rw [htable]
      refine and_congr_right fun _ => and_congr_right fun _ => exists_congr fun i => exists_congr fun b => exists_congr fun k => ?_
      refine and_congr_right fun hi => ?_
      rw [← hcache i hi]
    rw [← hsame]
    dsimp only
    split
    · exact ⟨hrecorded'.refreshPointerCache key _, hiff⟩
    · exact ⟨hrecorded', hiff⟩

theorem lookup_spec (h : Recorded m) (hcurrent : Current m) (key : Addr) (name : String) :
    Recorded (m.lookup key name).2 ∧ Current (m.lookup key name).2 := by
  unfold lookup
  split
  · exact ⟨h, hcurrent⟩
  obtain ⟨-, -, -, -, hrecorded, hcurrent'⟩ := lookupCached_spec h hcurrent name
  split
  · rename_i slot m' heq
    rw [heq] at hrecorded hcurrent'
    exact ⟨hrecorded.refreshPointerCache key slot, hcurrent'⟩
  · rename_i m' heq
    rw [heq] at hrecorded hcurrent'
    exact ⟨hrecorded, hcurrent'⟩

theorem cleared_spec (base : Addr) {table : Table String D} (h : Invariant table) :
    Recorded (⟨base, table, clearEntryCache String, clearEntryCache Addr⟩ : CachedMap D) ∧
      Current (⟨base, table, clearEntryCache String, clearEntryCache Addr⟩ : CachedMap D) := by
  have hempty : ∀ (i : Nat) (b : Bucket String) (k : String), (clearEntryCache String)[i]? = some b → b.keyRef ≠ some k := by
    intro i b k hb
    obtain rfl := List.eq_of_mem_replicate (List.mem_of_getElem? hb)
    nofun
  exact ⟨⟨h, List.length_replicate, fun i b k hb hkey => absurd hkey (hempty i b k hb)⟩,
    fun i b k hb _ hkey => absurd hkey (hempty i b k hb)⟩

end
end CachedMap

/-! ### Runs -/

inductive Side where
  | vars | params
  deriving DecidableEq

structure Maps (D : Type) where
  vars : CachedMap D
  params : CachedMap D

namespace Maps

def on (maps : Maps D) : Side → CachedMap D
  | .vars => maps.vars
  | .params => maps.params

def update (maps : Maps D) : Side → CachedMap D → Maps D
  | .vars, m => { maps with vars := m }
  | .params, m => { maps with params := m }

end Maps

/-- One call on a context: a write or a lookup of a number, with the address of the name and, for a table that grows, the
    address it moves to; a clear; a clone, which takes the place of the context. -/
inductive Call (D : Type) where
  | set (side : Side) (key : Addr) (name : String) (value : D) (fresh : Addr)
  | get (side : Side) (key : Addr) (name : String)
  | clear
  | clone (vars params : Addr)

namespace Call

def apply (maps : Maps D) : Call D → Maps D
  | .set side key name value fresh => maps.update side ((maps.on side).setHashed key name value fresh)
  | .get side key name => maps.update side ((maps.on side).lookup key name).2
  | .clear => ⟨maps.vars.clear, maps.params.clear⟩
  | .clone vars params => ⟨maps.vars.clone vars, maps.params.clone params⟩

/-- The call moves a table to an address that a bucket of its hash cache still records. -/
def Revives (maps : Maps D) : Call D → Prop
  | .set side _ name _ fresh => (maps.on side).Revives name fresh
  | .get .. | .clear | .clone .. => False

end Call

def run (vars params : Addr) (calls : List (Call D)) : Maps D := calls.foldl Call.apply ⟨.new vars, .new params⟩

def AllocationsSucceed (vars params : Addr) (calls : List (Call D)) : Prop :=
  ∀ done, done <+: calls → ∀ side, Allocated ((run vars params done).on side).table

def Transparent (maps : Maps D) : Prop := ∀ side, (maps.on side).Transparent

section
variable {maps : Maps D}

theorem Maps.on_update (maps : Maps D) (side other : Side) (m : CachedMap D) :
    (maps.update side m).on other = if other = side then m else maps.on other := by
  cases side <;> cases other <;> rfl

theorem Call.apply_spec (h : ∀ side, (maps.on side).Recorded) (hcurrent : ∀ side, (maps.on side).Current)
    (halloc : ∀ side, Allocated (maps.on side).table) (call : Call D) :
    (∀ side, ((call.apply maps).on side).Recorded) ∧ ((∀ side, ((call.apply maps).on side).Current) ↔ ¬ call.Revives maps) := by
  cases call with
  | set side key name value fresh =>
    obtain ⟨hrecorded, hiff⟩ := CachedMap.setHashed_spec (h side) (hcurrent side) (halloc side) key name value fresh
    simp only [apply, Maps.on_update, Revives]
    refine ⟨fun other => ?_, ?_⟩
    · split
      · exact hrecorded
      · exact h other
    · rw [← hiff]
      constructor
      · intro hall
        simpa using hall side
      · intro hside other
        split
        · exact hside
        · exact hcurrent other
  | get side key name =>
    obtain ⟨hrecorded, hcurrent'⟩ := CachedMap.lookup_spec (h side) (hcurrent side) key name
    simp only [apply, Maps.on_update, Revives, not_false_eq_true, iff_true]
    refine ⟨fun other => ?_, fun other => ?_⟩
    · split
      · exact hrecorded
      · exact h other
    · split
      · exact hcurrent'
      · exact hcurrent other
  | clear =>
    have hclear : ∀ side, ((Call.clear.apply maps).on side).Recorded ∧ ((Call.clear.apply maps).on side).Current := by
      intro side
      cases side with
      | vars => exact CachedMap.cleared_spec _ (invariant_empty (h .vars).invariant.capacity).1
      | params => exact CachedMap.cleared_spec _ (invariant_empty (h .params).invariant.capacity).1
    exact ⟨fun side => (hclear side).1, iff_of_true (fun side => (hclear side).2) not_false⟩
  | clone vars params =>
    have hclone : ∀ side, (((Call.clone vars params).apply maps).on side).Recorded ∧
        (((Call.clone vars params).apply maps).on side).Current := by
      intro side
      cases side with
      | vars => exact CachedMap.cleared_spec _ (by rw [clone_eq]; exact (h .vars).invariant)
      | params => exact CachedMap.cleared_spec _ (by rw [clone_eq]; exact (h .params).invariant)
    exact ⟨fun side => (hclone side).1, iff_of_true (fun side => (hclone side).2) not_false⟩

theorem run_append (vars params : Addr) (done : List (Call D)) (call : Call D) :
    run vars params (done ++ [call]) = call.apply (run vars params done) := by
  rw [run, List.foldl_append]
  rfl

theorem recorded_new (vars params : Addr) (side : Side) :
    ((run vars params ([] : List (Call D))).on side).Recorded ∧ ((run vars params ([] : List (Call D))).on side).Current := by
  cases side with
  | vars => exact CachedMap.cleared_spec _ (invariant_empty le_rfl).1
  | params => exact CachedMap.cleared_spec _ (invariant_empty le_rfl).1

theorem run_spec (vars params : Addr) (calls : List (Call D)) (halloc : AllocationsSucceed vars params calls)
    (h : ∀ done call, done ++ [call] <+: calls → ¬ call.Revives (run vars params done)) :
    ∀ side, ((run vars params calls).on side).Recorded ∧ ((run vars params calls).on side).Current := by
  induction calls using List.reverseRecOn with
  | nil => exact recorded_new vars params
  | append_singleton done call ih =>
    have ih := ih (fun done' hdone' => halloc done' (hdone'.trans (List.prefix_append _ _)))
      (fun done' call' hdone' => h done' call' (hdone'.trans (List.prefix_append _ _)))
    obtain ⟨hrecorded, hiff⟩ := Call.apply_spec (fun side => (ih side).1) (fun side => (ih side).2)
      (halloc done (List.prefix_append _ _)) call
    rw [run_append]
    exact fun side => ⟨hrecorded side, hiff.mpr (h done call List.prefix_rfl) side⟩

end

/-- The caches are transparent in all states of a run if and only if no call of the run moves a table to an address that
    a bucket of its hash cache still records. -/
theorem run_transparent_iff (vars params : Addr) (calls : List (Call D)) (halloc : AllocationsSucceed vars params calls) :
    (∀ done, done <+: calls → Transparent (run vars params done)) ↔
      ∀ done call, done ++ [call] <+: calls → ¬ call.Revives (run vars params done) := by
  constructor
  · intro htransparent
    induction calls using List.reverseRecOn with
    | nil =>
      intro done call hprefix
      simp at hprefix
    | append_singleton before last ih =>
      have ih := ih (fun done hdone => halloc done (hdone.trans (List.prefix_append _ _)))
        (fun done hdone => htransparent done (hdone.trans (List.prefix_append _ _)))
      have hspec := run_spec vars params before (fun done hdone => halloc done (hdone.trans (List.prefix_append _ _))) ih
      obtain ⟨hrecorded, hiff⟩ := Call.apply_spec (fun side => (hspec side).1) (fun side => (hspec side).2)
        (halloc before (List.prefix_append _ _)) last
      intro done call hprefix
      rcases List.prefix_concat_iff.mp hprefix with heq | hprefix
      · obtain ⟨rfl, hcall⟩ := List.append_inj' heq rfl
        obtain rfl := List.singleton_inj.mp hcall
        have hlast := htransparent _ List.prefix_rfl
        rw [run_append] at hlast
        exact hiff.mp fun side => (CachedMap.transparent_iff (hrecorded side)).mp (hlast side)
      · exact ih done call hprefix
  · intro h done hdone side
    have hspec := run_spec vars params done (fun done' hdone' => halloc done' (hdone'.trans hdone))
      (fun done' call hdone' => h done' call (hdone'.trans hdone)) side
    exact (CachedMap.transparent_iff hspec.1).mpr hspec.2

theorem run_transparent_iff_write :
    (∀ done, done <+: [Call.set .vars 16 "a" (1 : Int) 0, .get .vars 16 "a", .set .vars 32 "a" 2 0] →
        Transparent (run 100 200 done)) ↔
      ∀ done call, done ++ [call] <+: [Call.set .vars 16 "a" (1 : Int) 0, .get .vars 16 "a", .set .vars 32 "a" 2 0] →
        ¬ call.Revives (run 100 200 done) := by
  refine run_transparent_iff 100 200 _ ?_
  intro done h
  have hmem := (List.mem_inits _ _).mpr h
  simp only [List.inits, List.map_cons, List.map_nil, List.mem_cons, List.not_mem_nil, or_false] at hmem
  rcases hmem with rfl | rfl | rfl | rfl <;> intro side <;> cases side <;> unfold Allocated <;> decide +kernel

/-- The names `A` to `q`. The table with 64 slots is at a new address, the one with 128 slots where the first one was. -/
def fortyNine : List (Call Int) :=
  (List.range 49).map fun i =>
    .set .vars (16 * i) (String.singleton (Char.ofNat (65 + i))) i (if i < 48 then 2000 else 1000)

/-- The second growth returns to the address of the first table: the hash cache gives `A` the entry of `a`. -/
theorem returned_address_wrong_entry :
    (((run 1000 3000 fortyNine).on .vars).lookupCachedEntry "A" (hashString "A")).1 = some 6 ∧
      ((run 1000 3000 fortyNine).on .vars).find "A" = some 102 ∧ keyAt ((run 1000 3000 fortyNine).on .vars).table 6 = some "a" := by
  decide +kernel

end Cxpr.ContextCache
