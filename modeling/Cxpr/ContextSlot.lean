import Cxpr.ContextCache

/-! Slots of variables (`src/context/slot.c`): a slot keeps the place of a table entry and writes to it without a lookup.
    It counts as valid as long as the table is at the same address. That the entry still belongs to the name, and that no
    value of another type covers the number, is not checked. -/

namespace Cxpr.ContextSlot
open ProbeTable Memory ContextCache
variable {D : Type}

def numbers (table : Table String D) : NameMap D :=
  ((table.entries.filterMap id).map fun entry => (⟨entry.1, entry.2⟩ : Sigma fun _ : String => D)).toAList

structure Storage (D : Type) where
  /-- Everything but the numbers; `vars` is not used. -/
  stores : Frame D := {}
  base : Addr
  table : Table String D := Hashmap.init
  /-- What is in the entries without a key. -/
  spare : Nat → D
  parents : Context D := []

/-- `cxpr_context_slot`: the entry in the table that was at `base`. -/
structure Slot where
  entry : Nat
  base : Addr
  deriving DecidableEq

namespace Storage

def context (c : Storage D) : Context D := { c.stores with vars := numbers c.table } :: c.parents

/-- `cxpr_context_slot_bind`; `none` is false. -/
def slotBind (c : Storage D) (name : String) : Option Slot :=
  (Hashmap.findPrehashedSlot c.table name (hashString name)).map fun entry => ⟨entry, c.base⟩

def slotValid (c : Storage D) (slot : Slot) : Bool := slot.base == c.base

/-- `cxpr_context_slot_set` on a valid slot. -/
def slotSet (c : Storage D) (slot : Slot) (value : D) : Storage D :=
  match keyAt c.table slot.entry with
  | some _ => { c with table := c.table.setAt slot.entry value }
  | none => { c with spare := Function.update c.spare slot.entry value }

/-- `cxpr_context_slot_get` on a valid slot. -/
def slotGet (c : Storage D) (slot : Slot) : D :=
  match c.table.entries[slot.entry]? with
  | some (some (_, v)) => v
  | _ => c.spare slot.entry

variable [Double D]

/-- `cxpr_context_set`. A table that grows moves to `fresh`; its entries without a key are zero. -/
def set (c : Storage D) (name : String) (value : D) (fresh : Addr) : Storage D :=
  let table := (Hashmap.set c.table name value).1
  let moved := table.entries.length ≠ c.table.entries.length
  { c with
    stores :=
      { c.stores with
        bools := c.stores.bools.erase name
        int64s := c.stores.int64s.erase name
        strings := c.stores.strings.erase name
        arrays := c.stores.arrays.erase name
        structs := c.stores.structs.erase name
        variablesVersion :=
          if (Hashmap.set c.table name value).2 then c.stores.variablesVersion + 1 else c.stores.variablesVersion }
    base := if moved then fresh else c.base
    table := table
    spare := if moved then fun _ => Double.zero else c.spare }

/-- `cxpr_context_set_value`, and `cxpr_context_set`, `set_bool`, `set_int64` and `set_string` by their type. -/
def setValue (c : Storage D) (name : String) (v : Value D) (fresh : Addr) : Storage D :=
  match v with
  | .number d => c.set name d fresh
  | v => { c with stores := c.stores.setValue name v }

def clear (c : Storage D) : Storage D :=
  { stores :=
      { c.stores with
        bools := ∅, boolParams := ∅, int64s := ∅, int64Params := ∅, strings := ∅, stringParams := ∅, structs := ∅
        cachedStructs := ∅, arrays := ∅, arrayParams := ∅, params := ∅, evalMemo := [], evalMemoDepth := 0
        variablesVersion := c.stores.variablesVersion + 1, paramsVersion := c.stores.paramsVersion + 1 }
    base := c.base
    table := Hashmap.clear c.table
    spare := fun _ => Double.zero
    parents := c.parents }

end Storage

/-! ### Runs -/

structure State (D : Type) where
  storage : Storage D
  slots : List (String × Slot) := []

/-- One call. A write through a slot gives its place among the bound ones; the interface allows it on valid slots. -/
inductive Call (D : Type) where
  | setValue (name : String) (v : Value D) (fresh : Addr)
  | clear
  | slotBind (name : String)
  | slotSet (place : Nat) (value : D)

section
variable [Double D]

def Call.apply (s : State D) : Call D → State D
  | .setValue name v fresh => { s with storage := s.storage.setValue name v fresh }
  | .clear => { s with storage := s.storage.clear }
  | .slotBind name =>
    match s.storage.slotBind name with
    | some slot => { s with slots := s.slots ++ [(name, slot)] }
    | none => s
  | .slotSet place value =>
    match s.slots[place]? with
    | some (_, slot) => if s.storage.slotValid slot then { s with storage := s.storage.slotSet slot value } else s
    | none => s

def run (s : State D) (calls : List (Call D)) : State D := calls.foldl Call.apply s

def SameLookups (c d : Storage D) : Prop :=
  ∀ name, c.context.getTyped name = d.context.getTyped name ∧ c.context.getBool name = d.context.getBool name ∧
    c.context.getString name = d.context.getString name ∧ c.context.getStruct name = d.context.getStruct name ∧
      c.context.getCachedStruct name = d.context.getCachedStruct name ∧ c.context.get name = d.context.get name ∧
        c.context.getPrehashed name = d.context.getPrehashed name

/-- A write through the slot of a name is a write to the name, for all lookups after whatever calls follow, and a read
    gives what a lookup of the name gives. -/
def Equivalent (s : State D) (name : String) (slot : Slot) : Prop :=
  (∀ value fresh (later : List (Call D)),
      SameLookups (run { s with storage := s.storage.slotSet slot value } later).storage
        (run { s with storage := s.storage.set name value fresh } later).storage) ∧
    s.storage.context.get name = some (s.storage.slotGet slot)

/-- A value of another type goes with the name, or an attached evaluator has a result for it. -/
def Covered (f : Frame D) (name : String) : Prop :=
  (f.expressionScope.bind (· name)).isSome ∨ (f.bools.lookup name).isSome ∨ (f.int64s.lookup name).isSome ∨
    (f.strings.lookup name).isSome ∨ (f.arrays.lookup name).isSome ∨ (f.structs.lookup name).isSome

/-- What the calls have to keep to: only numbers are written to names with valid slots, a table with valid slots is not
    cleared, a table does not move to an address for which a slot was bound, and no slot is bound to a covered name. -/
def Call.Meets (s : State D) : Call D → Prop
  | .setValue name (.number _) fresh =>
    Hashmap.findPrehashedSlot s.storage.table name (hashString name) = none → s.storage.table.full = true →
      ∀ e ∈ s.slots, e.2.base ≠ fresh
  | .setValue _ .null _ | .setValue _ (.timestamp _) _ | .setValue _ (.duration _) _ => True
  | .setValue name _ _ => ∀ e ∈ s.slots, e.1 = name → s.storage.slotValid e.2 = false
  | .clear => ∀ e ∈ s.slots, s.storage.slotValid e.2 = false
  | .slotBind name => ¬ Covered s.storage.stores name
  | .slotSet .. => True

variable {name : String} {s : State D}

omit [Double D] in
theorem lookup_numbers {table : Table String D} (h : Hashmap.Invariant table) {entry : Nat} {v : D}
    (hentry : table.entries[entry]? = some (some (name, v))) : (numbers table).lookup name = some v := by
  rw [numbers, AList.lookup_to_alist]
  refine List.mem_dlookup ?_ ?_
  · rw [List.NodupKeys, List.keys, List.map_map]
    exact h.probing.nodup
  · refine List.mem_map_of_mem (f := fun entry : String × D => (⟨entry.1, entry.2⟩ : Sigma fun _ : String => D)) (a := (name, v)) ?_
    exact List.mem_filterMap.mpr ⟨some (name, v), List.mem_of_getElem? hentry, rfl⟩

theorem erase_eq_self {α : Type} {m : NameMap α} (h : m.lookup name = none) : m.erase name = m :=
  AList.ext (List.kerase_of_notMem_keys (List.dlookup_eq_none.mp h))

omit [Double D] in
theorem not_covered_iff {f : Frame D} : ¬ Covered f name ↔
    f.expressionScope.bind (· name) = none ∧ f.bools.lookup name = none ∧ f.int64s.lookup name = none ∧
      f.strings.lookup name = none ∧ f.arrays.lookup name = none ∧ f.structs.lookup name = none := by
  simp only [Covered, not_or, Option.isSome_iff_ne_none, ne_eq, not_not]

variable {c : Storage D} {slot : Slot} {name : String}

theorem slotSet_eq_set (h : Hashmap.Invariant c.table) (hkey : keyAt c.table slot.entry = some name) (hcovered : ¬ Covered c.stores name)
    (value : D) (fresh : Addr) : c.slotSet slot value = c.set name value fresh := by
  obtain ⟨-, hbools, hint64s, hstrings, harrays, hstructs⟩ := not_covered_iff.mp hcovered
  have hset : Hashmap.set c.table name value = (c.table.setAt slot.entry value, false) := by
    rw [Hashmap.set, Hashmap.setPrehashed, (find_eq_some_iff h).mpr hkey]
  have hlength : (c.table.setAt slot.entry value).entries.length = c.table.entries.length := List.length_modify ..
  unfold Storage.slotSet Storage.set
  rw [hkey, hset, erase_eq_self hbools, erase_eq_self hint64s, erase_eq_self hstrings, erase_eq_self harrays, erase_eq_self hstructs]
  simp [hlength]

theorem get_eq_slotGet (h : Hashmap.Invariant c.table) (hkey : keyAt c.table slot.entry = some name) (hcovered : ¬ Covered c.stores name) :
    c.context.get name = some (c.slotGet slot) := by
  obtain ⟨hscope, hbools, hint64s, hstrings, harrays, -⟩ := not_covered_iff.mp hcovered
  obtain ⟨v, hentry⟩ := entry_of_keyAt hkey
  have htyped : c.context.getTyped name = some (.number v) := by
    simp [Storage.context, Context.getTyped, Frame.getTyped, hscope, hbools, hint64s, hstrings, harrays, lookup_numbers h hentry]
  rw [Context.get, htyped, Storage.slotGet, hentry]

theorem equivalent_of_keyAt (h : Hashmap.Invariant s.storage.table) (hkey : keyAt s.storage.table slot.entry = some name)
    (hcovered : ¬ Covered s.storage.stores name) : Equivalent s name slot := by
  refine ⟨fun value fresh later => ?_, get_eq_slotGet h hkey hcovered⟩
  rw [slotSet_eq_set h hkey hcovered value fresh]
  exact fun _ => ⟨rfl, rfl, rfl, rfl, rfl, rfl, rfl⟩

structure Sound (s : State D) : Prop where
  invariant : Hashmap.Invariant s.storage.table
  held : ∀ e ∈ s.slots, s.storage.slotValid e.2 = true →
    keyAt s.storage.table e.2.entry = some e.1 ∧ ¬ Covered s.storage.stores e.1

omit [Double D] in
theorem covered_setValue {f : Frame D} {other : String} (hne : other ≠ name) (v : Value D) :
    Covered (f.setValue name v) other ↔ Covered f other := by
  cases v <;> simp [Covered, Frame.setValue, Frame.set, Frame.setBool, Frame.setInt64, Frame.setString, Frame.setStruct, hne]

omit [Double D] in
theorem slotValid_iff : c.slotValid slot = true ↔ slot.base = c.base := beq_iff_eq

theorem not_covered_set {other : String} (h : ¬ Covered c.stores other) (value : D) (fresh : Addr) :
    ¬ Covered (c.set name value fresh).stores other := by
  obtain ⟨hscope, hbools, hint64s, hstrings, harrays, hstructs⟩ := not_covered_iff.mp h
  have hkept : ∀ {α : Type} {m : NameMap α}, m.lookup other = none → (m.erase name).lookup other = none := by
    intro α m hm
    by_cases hne : other = name
    · rw [hne, AList.lookup_erase]
    · rw [AList.lookup_erase_ne hne, hm]
  exact not_covered_iff.mpr ⟨hscope, hkept hbools, hkept hint64s, hkept hstrings, hkept harrays, hkept hstructs⟩

theorem set_spec (h : Hashmap.Invariant c.table) (halloc : Hashmap.Allocated c.table) (name : String) (value : D) (fresh : Addr) :
    Hashmap.Invariant (c.set name value fresh).table ∧
      (((c.set name value fresh).base = c.base ∧
          ∀ k entry, keyAt c.table entry = some k → keyAt (c.set name value fresh).table entry = some k) ∨
        Hashmap.findPrehashedSlot c.table name (hashString name) = none ∧ c.table.full = true ∧
          (c.set name value fresh).base = fresh) := by
  have hinv := (h.set (stores_get h) halloc name value).1
  refine ⟨hinv, ?_⟩
  cases hfind : Hashmap.findPrehashedSlot c.table name (hashString name) with
  | some entry =>
    have hset : (Hashmap.set c.table name value).1 = c.table.setAt entry value := by
      rw [Hashmap.set, Hashmap.setPrehashed, hfind]
    have hlength : (c.table.setAt entry value).entries.length = c.table.entries.length := List.length_modify ..
    refine .inl ⟨?_, ?_⟩
    · simp [Storage.set, hset, hlength]
    · intro k entry' hkey
      simp only [Storage.set, hset]
      rw [keyAt_setAt, hkey]
  | none =>
    obtain ⟨-, -, hkept⟩ := setPrehashed_spec h halloc hfind value
    have hlength : (Hashmap.set c.table name value).1.entries.length = (roomy c.table).entries.length := by
      rw [Hashmap.set, setPrehashed_new hfind, length_place]
    cases hfull : c.table.full with
    | false =>
      have hroomy : roomy c.table = c.table := by simp [roomy, hfull]
      refine .inl ⟨?_, fun k entry hkey => hkept k entry (hroomy.symm ▸ hkey)⟩
      simp [Storage.set, hlength, hroomy]
    | true =>
      have hmoved : (Hashmap.set c.table name value).1.entries.length ≠ c.table.entries.length := by
        rw [hlength, ne_eq, length_roomy h halloc, hfull]
        decide
      exact .inr ⟨rfl, rfl, by simp [Storage.set, hmoved]⟩

theorem Sound.apply (h : Sound s) (halloc : Hashmap.Allocated s.storage.table) {call : Call D} (hmeets : call.Meets s) :
    Sound (call.apply s) := by
  cases call with
  | setValue name v fresh =>
    cases v with
    | number d =>
      obtain ⟨hinv, hbase⟩ := set_spec h.invariant halloc name d fresh
      refine ⟨hinv, fun e he hvalid => ?_⟩
      have hbaseEq : e.2.base = (s.storage.set name d fresh).base := slotValid_iff.mp hvalid
      rcases hbase with ⟨hsame, hkept⟩ | ⟨hnew, hfull, hmoved⟩
      · obtain ⟨hkey, hcovered⟩ := h.held e he (slotValid_iff.mpr (hbaseEq.trans hsame))
        exact ⟨hkept _ _ hkey, not_covered_set hcovered d fresh⟩
      · exact absurd (hbaseEq.trans hmoved) (hmeets hnew hfull e he)
    | null | timestamp | duration => exact h
    | bool | int64 | string | struct | array =>
      refine ⟨h.invariant, fun e he hvalid => ?_⟩
      obtain ⟨hkey, hcovered⟩ := h.held e he hvalid
      have hne : e.1 ≠ name := fun heq => Bool.false_ne_true ((hmeets e he heq).symm.trans hvalid)
      exact ⟨hkey, (not_congr (covered_setValue hne _)).mpr hcovered⟩
  | clear =>
    refine ⟨(Hashmap.invariant_empty h.invariant.capacity).1, fun e he hvalid => ?_⟩
    exact absurd ((hmeets e he).symm.trans hvalid) Bool.false_ne_true
  | slotBind name =>
    simp only [Call.apply]
    split
    · rename_i slot hbind
      refine ⟨h.invariant, fun e he hvalid => ?_⟩
      rcases List.mem_append.mp he with he | he
      · exact h.held e he hvalid
      · obtain rfl := List.mem_singleton.mp he
        obtain ⟨entry, hfind, rfl⟩ := Option.map_eq_some_iff.mp hbind
        exact ⟨(find_eq_some_iff h.invariant).mp hfind, hmeets⟩
    · exact h
  | slotSet place value =>
    simp only [Call.apply]
    split
    · rename_i name slot hplace
      split
      · rename_i hvalid
        obtain ⟨hkey, -⟩ := h.held _ (List.mem_of_getElem? hplace) hvalid
        unfold Storage.slotSet
        rw [hkey]
        refine ⟨invariant_setAt h.invariant halloc hkey value, fun e he hvalid' => ?_⟩
        obtain ⟨hkey', hcovered'⟩ := h.held e he hvalid'
        exact ⟨(keyAt_setAt _ _).trans hkey', hcovered'⟩
      · exact h
    · exact h

def AllocationsSucceed (s : State D) (calls : List (Call D)) : Prop :=
  ∀ done, done <+: calls → Hashmap.Allocated (run s done).storage.table

theorem run_sound (h : Sound s) (calls : List (Call D)) (halloc : AllocationsSucceed s calls)
    (hmeets : ∀ done call, done ++ [call] <+: calls → call.Meets (run s done)) : Sound (run s calls) := by
  induction calls using List.reverseRecOn with
  | nil => exact h
  | append_singleton done call ih =>
    have ih := ih (fun done' hdone' => halloc done' (hdone'.trans (List.prefix_append _ _)))
      (fun done' call' hdone' => hmeets done' call' (hdone'.trans (List.prefix_append _ _)))
    rw [run, List.foldl_append]
    exact ih.apply (halloc done (List.prefix_append _ _)) (hmeets done call List.prefix_rfl)

end

def bare : State Int := ⟨⟨{}, 100, Hashmap.init, fun _ => 0, []⟩, []⟩

end Cxpr.ContextSlot
