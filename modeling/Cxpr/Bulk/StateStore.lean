import Mathlib.Algebra.Ring.Nat
import Mathlib.Data.UInt
import Mathlib.Order.Fin.Basic
import Cxpr.Lib.Block
import Cxpr.Lib.LowerBound

/-! The store of a changing population of model states (`src/bulk_state_store.c`): two blocks side by side, the ids in
    ascending order and the state of each id in the slot at its index. A block is a function from offsets to cells; what an
    allocation leaves in it is not known. -/

namespace Cxpr.Bulk
open LowerBound Block

/-- `uint64_t`, as an id of an agent. -/
abbrev AgentId := Fin (2 ^ 64)

def sizeMax : Nat := 2 ^ 64 - 1

def maxAlign : Nat := 16

/-- `cxpr_bulk_state_store_status`, as far as a store that is there can return it. -/
inductive StoreStatus where
  | ok | duplicateId | idNotFound | allocationFailed
deriving DecidableEq, Repr

/-- What a store reads of a `cxpr_generated_model_descriptor`: the size of a state, and the callback that resets one. -/
structure StateLayout where
  stateSize : Nat
  reset : Option (List UInt8 → List UInt8)

def alignedStride (size : Nat) : Nat :=
  if size = 0 then 0
  else if sizeMax - (maxAlign - 1) < size then 0
  else (size + maxAlign - 1) / maxAlign * maxAlign

structure StateStore where
  layout : StateLayout
  ids : Nat → AgentId
  states : Nat → UInt8
  stateStride : Nat
  count : Nat
  capacity : Nat

/-- Two blocks as `malloc` hands them out, with whatever is in them; `none` if one of them could not be had. -/
abbrev Blocks := Option ((Nat → AgentId) × (Nat → UInt8))

namespace StateStore

/-- `cxpr_bulk_state_store_new` for a valid descriptor. -/
def new (layout : StateLayout) : Except StoreStatus StateStore :=
  let stride := alignedStride layout.stateSize
  if layout.stateSize ≠ 0 ∧ stride = 0 then .error .allocationFailed
  else .ok ⟨layout, fun _ => 0, fun _ => 0, stride, 0, 0⟩

/-- `lower_bound`: the index, and whether the id is there. -/
def lowerBound (s : StateStore) (id : AgentId) : Nat × Bool :=
  let first := LowerBound.lowerBound s.ids id s.count
  (first, first < s.count && s.ids first == id)

def reserve (s : StateStore) (blocks : Blocks) (capacity : Nat) : Option StateStore :=
  if capacity ≤ s.capacity then some s
  else if sizeMax / 8 < capacity ∨ (s.stateStride ≠ 0 ∧ sizeMax / s.stateStride < capacity) then none
  else blocks.map fun (ids, states) =>
    { s with
      ids := memcpy 0 s.count s.ids ids
      states := memcpy 0 (s.count * s.stateStride) s.states states
      capacity := capacity }

/-- The growth of a full store in `cxpr_bulk_state_store_add`. -/
def grow (s : StateStore) (blocks : Blocks) : Option StateStore :=
  if s.count = s.capacity then
    let capacity := if s.capacity ≠ 0 then s.capacity * 2 % 2 ^ 64 else 8
    if capacity < s.capacity then none else s.reserve blocks capacity
  else some s

/-- A state that has been cleared and reset. The callback gets the cleared state and may write all of it, but nothing of
    the rest of the slot. -/
def freshCell (layout : StateLayout) (k : Nat) : UInt8 :=
  match layout.reset with
  | some reset => if k < layout.stateSize then (reset (List.replicate layout.stateSize 0)).getD k 0 else 0
  | none => 0

/-- The part of `cxpr_bulk_state_store_add` behind the growth. -/
def insert (s : StateStore) (index : Nat) (id : AgentId) : StateStore :=
  { s with
    ids := fun i => if i = index then id else memmove (index + 1) index (s.count - index) s.ids i
    states :=
      if s.stateStride ≠ 0 then
        memcpy (index * s.stateStride) s.stateStride (freshCell s.layout)
          (memmove ((index + 1) * s.stateStride) (index * s.stateStride) ((s.count - index) * s.stateStride) s.states)
      else s.states
    count := s.count + 1 }

def add (s : StateStore) (blocks : Blocks) (id : AgentId) : StoreStatus × StateStore :=
  let (index, found) := s.lowerBound id
  if found then (.duplicateId, s)
  else
    match s.grow blocks with
    | none => (.allocationFailed, s)
    | some grown => (.ok, grown.insert index id)

/-- The part of `cxpr_bulk_state_store_remove` behind the search. -/
def erase (s : StateStore) (index : Nat) : StateStore :=
  { s with
    ids := memmove index (index + 1) (s.count - index - 1) s.ids
    states :=
      if s.stateStride ≠ 0 then
        memmove (index * s.stateStride) ((index + 1) * s.stateStride) ((s.count - index - 1) * s.stateStride) s.states
      else s.states
    count := s.count - 1 }

def remove (s : StateStore) (id : AgentId) : StoreStatus × StateStore :=
  let (index, found) := s.lowerBound id
  if found then (.ok, s.erase index) else (.idNotFound, s)

/-- `cxpr_bulk_state_store_find`: the offset of a state in the block of the states, `none` for `NULL`. -/
def find (s : StateStore) (id : AgentId) : Option Nat :=
  let (index, found) := s.lowerBound id
  if !found || s.stateStride == 0 then none else some (index * s.stateStride)

/-- What is done to a store. A host that has found a state, or has bound the store to a view, writes to the states. -/
inductive Op where
  | add (blocks : Blocks) (id : AgentId)
  | remove (id : AgentId)
  | write (states : Nat → UInt8)

def step (s : StateStore) : Op → StateStore
  | .add blocks id => (s.add blocks id).2
  | .remove id => (s.remove id).2
  | .write states => { s with states := states }

inductive Reached (layout : StateLayout) : StateStore → Prop
  | new {s : StateStore} (h : new layout = .ok s) : Reached layout s
  | step {s : StateStore} (hs : Reached layout s) (op : Op) : Reached layout (s.step op)

/-! ### The invariant -/

structure Valid (s : StateStore) : Prop where
  ids : Increasing s.ids s.count
  count : s.count ≤ s.capacity
  capacity : s.capacity ≤ sizeMax / 8
  stride : s.stateStride = 0 ↔ s.layout.stateSize = 0

def Has (s : StateStore) (id : AgentId) : Prop := ∃ i < s.count, s.ids i = id

def state (s : StateStore) (id : AgentId) : Option (List UInt8) :=
  let (index, found) := s.lowerBound id
  if found then some (slot s.states s.stateStride index) else none

def fresh (layout : StateLayout) (stride : Nat) : List UInt8 := (List.range stride).map (freshCell layout)

variable {s t : StateStore} {id other : AgentId} {index : Nat}

theorem Valid.splits (h : s.Valid) (id : AgentId) : Splits s.ids id s.count (s.lowerBound id).1 :=
  lowerBound_splits h.ids

theorem Valid.found_iff (h : s.Valid) : (s.lowerBound id).2 = true ↔ s.Has id := by
  have hfound : (s.lowerBound id).2 = true ↔ (s.lowerBound id).1 < s.count ∧ s.ids (s.lowerBound id).1 = id := by
    simp [lowerBound]
  rw [hfound]
  exact ((h.splits id).mem_iff h.ids).symm

theorem Valid.lowerBound_eq (h : s.Valid) {i : Nat} (hi : i < s.count) (hid : s.ids i = id) : s.lowerBound id = (i, true) := by
  have hindex : (s.lowerBound id).1 = i := (h.splits id).eq_of_cell h.ids hi hid
  have hfound : (s.lowerBound id).2 = true := h.found_iff.mpr ⟨i, hi, hid⟩
  exact Prod.ext hindex hfound

theorem Valid.lowerBound_of_not_has (h : s.Valid) (hid : ¬ s.Has id) :
    ∃ index, s.lowerBound id = (index, false) ∧ Splits s.ids id s.count index := by
  refine ⟨(s.lowerBound id).1, Prod.ext rfl ?_, h.splits id⟩
  exact Bool.eq_false_iff.mpr fun hfound => hid (h.found_iff.mp hfound)

theorem Valid.state_eq (h : s.Valid) {i : Nat} (hi : i < s.count) (hid : s.ids i = id) :
    s.state id = some (slot s.states s.stateStride i) := by
  rw [state, h.lowerBound_eq hi hid]
  rfl

theorem Valid.state_eq_none (h : s.Valid) (hid : ¬ s.Has id) : s.state id = none := by
  obtain ⟨index, hbound, -⟩ := h.lowerBound_of_not_has hid
  rw [state, hbound]
  rfl

theorem Valid.state_congr (hs : s.Valid) (ht : t.Valid) (hhas : t.Has id ↔ s.Has id)
    (hmove : ∀ i < s.count, s.ids i = id → ∃ j < t.count, t.ids j = id ∧
      slot t.states t.stateStride j = slot s.states s.stateStride i) : t.state id = s.state id := by
  by_cases hid : s.Has id
  · obtain ⟨i, hi, hid⟩ := hid
    obtain ⟨j, hj, hjd, hslot⟩ := hmove i hi hid
    rw [hs.state_eq hi hid, ht.state_eq hj hjd, hslot]
  · rw [hs.state_eq_none hid, ht.state_eq_none fun h => hid (hhas.mp h)]

structure Grown (s t : StateStore) : Prop where
  layout : t.layout = s.layout
  stride : t.stateStride = s.stateStride
  count : t.count = s.count
  ids : ∀ i < s.count, t.ids i = s.ids i
  slots : ∀ i < s.count, slot t.states s.stateStride i = slot s.states s.stateStride i
  room : s.count < t.capacity
  capacity : t.capacity ≤ sizeMax / 8

theorem grown_reserve {blocks : Blocks} {capacity : Nat} (hs : s.Valid) (hroom : s.capacity < capacity)
    (h : s.reserve blocks capacity = some t) : Grown s t := by
  unfold reserve at h
  rw [if_neg (Nat.not_le.mpr hroom)] at h
  split at h
  · cases h
  · rename_i hsize
    obtain ⟨⟨ids, states⟩, -, rfl⟩ := Option.map_eq_some_iff.mp h
    obtain ⟨hcapacity, -⟩ := not_or.mp hsize
    refine ⟨rfl, rfl, rfl, fun i hi => ?_, fun i hi => ?_, hs.count.trans_lt hroom, Nat.not_lt.mp hcapacity⟩
    · have hcell : memcpy 0 s.count s.ids ids (0 + i) = s.ids i := memcpy_inside hi
      rwa [Nat.zero_add] at hcell
    · refine slot_congr fun k hk => ?_
      have hcell : memcpy 0 (s.count * s.stateStride) s.states states (0 + (i * s.stateStride + k)) =
          s.states (i * s.stateStride + k) := memcpy_inside (slot_offset_lt hk hi)
      rwa [Nat.zero_add] at hcell

theorem grown_grow {blocks : Blocks} (hs : s.Valid) (h : s.grow blocks = some t) : Grown s t := by
  have hcapacity := hs.capacity
  unfold sizeMax at hcapacity
  by_cases hfull : s.count = s.capacity
  · have hroom : s.capacity < if s.capacity ≠ 0 then s.capacity * 2 % 2 ^ 64 else 8 := by
      by_cases hpos : s.capacity = 0
      · simp [hpos]
      · rw [if_pos hpos, Nat.mod_eq_of_lt (by omega)]
        omega
    simp only [grow, if_pos hfull, if_neg (Nat.not_lt.mpr hroom.le)] at h
    exact grown_reserve hs hroom h
  · simp only [grow, if_neg hfull] at h
    obtain rfl := Option.some.inj h
    exact ⟨rfl, rfl, rfl, fun _ _ => rfl, fun _ _ => rfl, lt_of_le_of_ne hs.count hfull, hs.capacity⟩

section
variable {i : Nat}

theorem insert_ids_self (s : StateStore) (index : Nat) (id : AgentId) : (s.insert index id).ids index = id := if_pos rfl

theorem insert_ids_below (hi : i < index) : (s.insert index id).ids i = s.ids i :=
  (if_neg hi.ne).trans (memmove_outside (.inl (Nat.lt_succ_of_lt hi)))

theorem insert_ids_above (hi : index ≤ i) (hcount : i < s.count) : (s.insert index id).ids (i + 1) = s.ids i := by
  obtain ⟨k, rfl⟩ := Nat.exists_eq_add_of_le hi
  refine (if_neg (by omega)).trans ?_
  rw [Nat.add_right_comm]
  exact memmove_inside (by omega)

theorem slot_of_stride_eq_zero {states states' : Nat → UInt8} {width j : Nat} (h : width = 0) :
    slot states' width j = slot states width i := by
  subst h
  rfl

theorem insert_slot_self (s : StateStore) (index : Nat) (id : AgentId) :
    slot (s.insert index id).states s.stateStride index = fresh s.layout s.stateStride := by
  unfold insert fresh
  dsimp only
  split
  · exact slot_memcpy_self
  · rename_i hstride
    rw [not_ne_iff.mp hstride]
    rfl

theorem insert_slot_below (hi : i < index) :
    slot (s.insert index id).states s.stateStride i = slot s.states s.stateStride i := by
  unfold insert
  dsimp only
  split
  · rw [slot_memcpy_of_ne hi.ne]
    exact slot_memmove_outside (.inl (Nat.lt_succ_of_lt hi))
  · rfl

theorem insert_slot_above (hi : index ≤ i) (hcount : i < s.count) :
    slot (s.insert index id).states s.stateStride (i + 1) = slot s.states s.stateStride i := by
  obtain ⟨k, rfl⟩ := Nat.exists_eq_add_of_le hi
  unfold insert
  dsimp only
  split
  · rw [slot_memcpy_of_ne (by omega), Nat.add_right_comm]
    exact slot_memmove_inside (by omega)
  · rename_i hstride
    exact slot_of_stride_eq_zero (not_ne_iff.mp hstride)

theorem insert_index (hi : i < s.count) (index : Nat) (id : AgentId) :
    ∃ j < (s.insert index id).count, (s.insert index id).ids j = s.ids i ∧
      slot (s.insert index id).states s.stateStride j = slot s.states s.stateStride i := by
  rcases Nat.lt_or_ge i index with hlt | hge
  · exact ⟨i, Nat.lt_succ_of_lt hi, insert_ids_below hlt, insert_slot_below hlt⟩
  · exact ⟨i + 1, Nat.succ_lt_succ hi, insert_ids_above hge hi, insert_slot_above hge hi⟩

theorem insert_cases (hindex : index ≤ s.count) {j : Nat} (hj : j < (s.insert index id).count) :
    (j = index ∧ (s.insert index id).ids j = id) ∨ ∃ i < s.count, (s.insert index id).ids j = s.ids i := by
  have hj : j < s.count + 1 := hj
  rcases Nat.lt_trichotomy j index with hlt | rfl | hgt
  · exact .inr ⟨j, hlt.trans_le hindex, insert_ids_below hlt⟩
  · exact .inl ⟨rfl, insert_ids_self s j id⟩
  · obtain ⟨i, rfl⟩ := Nat.exists_eq_succ_of_ne_zero (Nat.ne_zero_of_lt hgt)
    exact .inr ⟨i, by omega, insert_ids_above (by omega) (by omega)⟩

theorem increasing_insert (hids : Increasing s.ids s.count) (hsplits : Splits s.ids id s.count index)
    (hnew : ¬ s.Has id) : Increasing (s.insert index id).ids (s.count + 1) := by
  have habove : ∀ i, index ≤ i → i < s.count → id < s.ids i := fun i hi hcount =>
    lt_of_le_of_ne (hsplits.above i hi hcount) fun heq => hnew ⟨i, hcount, heq.symm⟩
  intro i j hij hj
  rcases Nat.lt_trichotomy j index with hj' | rfl | hj'
  · rw [insert_ids_below (hij.trans hj'), insert_ids_below hj']
    exact hids i j hij (hj'.trans_le hsplits.le)
  · rw [insert_ids_below hij, insert_ids_self]
    exact hsplits.below i hij
  · obtain ⟨b, rfl⟩ := Nat.exists_eq_succ_of_ne_zero (Nat.ne_zero_of_lt hj')
    have hb : b < s.count := Nat.lt_of_succ_lt_succ hj
    have hbi : index ≤ b := Nat.le_of_lt_succ hj'
    rw [Nat.succ_eq_add_one, insert_ids_above hbi hb]
    rcases Nat.lt_trichotomy i index with hi | rfl | hi
    · rw [insert_ids_below hi]
      exact hids i b (hi.trans_le hbi) hb
    · rw [insert_ids_self]
      exact habove b hbi hb
    · obtain ⟨a, rfl⟩ := Nat.exists_eq_succ_of_ne_zero (Nat.ne_zero_of_lt hi)
      rw [Nat.succ_eq_add_one, insert_ids_above (Nat.le_of_lt_succ hi) (by omega)]
      exact hids a b (Nat.lt_of_succ_lt_succ hij) hb

end

section
variable {i : Nat}

theorem erase_ids_below (hi : i < index) : (s.erase index).ids i = s.ids i := memmove_outside (.inl hi)

theorem erase_ids_above (hi : index ≤ i) (hcount : i + 1 < s.count) : (s.erase index).ids i = s.ids (i + 1) := by
  obtain ⟨k, rfl⟩ := Nat.exists_eq_add_of_le hi
  rw [Nat.add_right_comm]
  exact memmove_inside (by omega)

theorem erase_slot_below (hi : i < index) :
    slot (s.erase index).states s.stateStride i = slot s.states s.stateStride i := by
  unfold erase
  dsimp only
  split
  · exact slot_memmove_outside (.inl hi)
  · rfl

theorem erase_slot_above (hi : index ≤ i) (hcount : i + 1 < s.count) :
    slot (s.erase index).states s.stateStride i = slot s.states s.stateStride (i + 1) := by
  obtain ⟨k, rfl⟩ := Nat.exists_eq_add_of_le hi
  unfold erase
  dsimp only
  split
  · rw [Nat.add_right_comm]
    exact slot_memmove_inside (by omega)
  · rename_i hstride
    exact slot_of_stride_eq_zero (not_ne_iff.mp hstride)

theorem erase_index (hindex : index < s.count) (hi : i < s.count) (hne : i ≠ index) :
    ∃ j < (s.erase index).count, (s.erase index).ids j = s.ids i ∧
      slot (s.erase index).states s.stateStride j = slot s.states s.stateStride i := by
  have hcount : (s.erase index).count = s.count - 1 := rfl
  rcases Nat.lt_or_gt_of_ne hne with hlt | hgt
  · exact ⟨i, by omega, erase_ids_below hlt, erase_slot_below hlt⟩
  · obtain ⟨k, rfl⟩ := Nat.exists_eq_succ_of_ne_zero (Nat.ne_zero_of_lt hgt)
    exact ⟨k, by omega, erase_ids_above (Nat.le_of_lt_succ hgt) hi, erase_slot_above (Nat.le_of_lt_succ hgt) hi⟩

theorem erase_cases {j : Nat} (hj : j < (s.erase index).count) :
    ∃ i < s.count, i ≠ index ∧ (s.erase index).ids j = s.ids i := by
  have hj : j < s.count - 1 := hj
  rcases Nat.lt_or_ge j index with hlt | hge
  · exact ⟨j, by omega, hlt.ne, erase_ids_below hlt⟩
  · exact ⟨j + 1, by omega, by omega, erase_ids_above hge (by omega)⟩

theorem increasing_erase (hids : Increasing s.ids s.count) : Increasing (s.erase index).ids (s.count - 1) := by
  intro i j hij hj
  rcases Nat.lt_or_ge i index with hi | hi
  · rw [erase_ids_below hi]
    rcases Nat.lt_or_ge j index with hj' | hj'
    · rw [erase_ids_below hj']
      exact hids i j hij (by omega)
    · rw [erase_ids_above hj' (by omega)]
      exact hids i (j + 1) (Nat.lt_succ_of_lt hij) (by omega)
  · rw [erase_ids_above hi (by omega), erase_ids_above (hi.trans hij.le) (by omega)]
    exact hids (i + 1) (j + 1) (Nat.succ_lt_succ hij) (by omega)

end

/-- A duplicate, a failed allocation, or a new id with a fresh state in a store in which all others have kept theirs. -/
inductive Added (s : StateStore) (id : AgentId) : StoreStatus × StateStore → Prop
  | duplicate (hid : s.Has id) : Added s id (.duplicateId, s)
  | failed (hid : ¬ s.Has id) : Added s id (.allocationFailed, s)
  | added {t : StateStore} (hid : ¬ s.Has id) (hvalid : t.Valid) (hcount : t.count = s.count + 1)
      (hhas : ∀ other, t.Has other ↔ other = id ∨ s.Has other) (hstride : t.stateStride = s.stateStride)
      (hlayout : t.layout = s.layout) (hfresh : t.state id = some (fresh s.layout s.stateStride))
      (hothers : ∀ other ≠ id, t.state other = s.state other) : Added s id (.ok, t)

theorem Grown.has_iff (h : Grown s t) : t.Has id ↔ s.Has id := by
  unfold Has
  rw [h.count]
  constructor
  · rintro ⟨i, hi, hid⟩
    exact ⟨i, hi, (h.ids i hi).symm.trans hid⟩
  · rintro ⟨i, hi, hid⟩
    exact ⟨i, hi, (h.ids i hi).trans hid⟩

theorem Grown.increasing (h : Grown s t) (hs : s.Valid) : Increasing t.ids t.count := by
  intro i j hij hj
  rw [h.count] at hj
  rw [h.ids i (hij.trans hj), h.ids j hj]
  exact hs.ids i j hij hj

theorem Grown.splits (h : Grown s t) (hsplits : Splits s.ids id s.count index) : Splits t.ids id t.count index := by
  rw [h.count]
  refine ⟨hsplits.le, fun i hi => ?_, fun i hi hcount => ?_⟩
  · rw [h.ids i (hi.trans_le hsplits.le)]
    exact hsplits.below i hi
  · rw [h.ids i hcount]
    exact hsplits.above i hi hcount

theorem added_add (hs : s.Valid) (blocks : Blocks) (id : AgentId) : Added s id (s.add blocks id) := by
  by_cases hid : s.Has id
  · obtain ⟨i, hi, hcell⟩ := hid
    rw [add, hs.lowerBound_eq hi hcell]
    exact .duplicate ⟨i, hi, hcell⟩
  · obtain ⟨index, hbound, hsplits⟩ := hs.lowerBound_of_not_has hid
    rw [add, hbound]
    cases hgrow : s.grow blocks with
    | none => simp only [Bool.false_eq_true, if_false]; exact .failed hid
    | some grown =>
      have hgrown := grown_grow hs hgrow
      have hindex : index ≤ grown.count := hgrown.count ▸ hsplits.le
      have hnew : ¬ grown.Has id := fun h => hid (hgrown.has_iff.mp h)
      have hcount : (grown.insert index id).count = s.count + 1 := congrArg (· + 1) hgrown.count
      have hvalid : (grown.insert index id).Valid := by
        refine ⟨increasing_insert (hgrown.increasing hs) (hgrown.splits hsplits) hnew, ?_, hgrown.capacity, ?_⟩
        · rw [hcount]
          exact hgrown.room
        · show grown.stateStride = 0 ↔ grown.layout.stateSize = 0
          rw [hgrown.stride, hgrown.layout]
          exact hs.stride
      have hhas : ∀ other, (grown.insert index id).Has other ↔ other = id ∨ s.Has other := by
        intro other
        constructor
        · rintro ⟨j, hj, hother⟩
          rcases insert_cases hindex hj with ⟨-, hnew⟩ | ⟨i, hi, hold⟩
          · exact .inl (hother.symm.trans hnew)
          · exact .inr (hgrown.has_iff.mp ⟨i, hi, hold.symm.trans hother⟩)
        · rintro (rfl | hother)
          · exact ⟨index, Nat.lt_succ_of_le hindex, insert_ids_self grown index other⟩
          · obtain ⟨i, hi, hold⟩ := hgrown.has_iff.mpr hother
            obtain ⟨j, hj, hcell, -⟩ := insert_index hi index id
            exact ⟨j, hj, hcell.trans hold⟩
      refine .added hid hvalid hcount hhas hgrown.stride hgrown.layout ?_ fun other hne => ?_
      · rw [hvalid.state_eq (Nat.lt_succ_of_le hindex) (insert_ids_self grown index id)]
        have hslot := insert_slot_self grown index id
        rw [hgrown.layout, hgrown.stride] at hslot
        exact congrArg some (by rw [← hslot, ← hgrown.stride]; rfl)
      · refine hs.state_congr hvalid ((hhas other).trans (or_iff_right hne)) fun i hi hcell => ?_
        have hi' : i < grown.count := hgrown.count ▸ hi
        obtain ⟨j, hj, hids, hslot⟩ := insert_index hi' index id
        refine ⟨j, hj, (hids.trans (hgrown.ids i hi)).trans hcell, ?_⟩
        have hkept := hgrown.slots i hi
        rw [hgrown.stride] at hslot
        show slot _ grown.stateStride j = _
        rw [hgrown.stride]
        exact hslot.trans hkept

/-- An id that is not there, or a store without the id in which all others have kept their states. -/
inductive Removed (s : StateStore) (id : AgentId) : StoreStatus × StateStore → Prop
  | absent (hid : ¬ s.Has id) : Removed s id (.idNotFound, s)
  | removed {t : StateStore} (hid : s.Has id) (hvalid : t.Valid) (hcount : t.count + 1 = s.count)
      (hhas : ∀ other, t.Has other ↔ other ≠ id ∧ s.Has other) (hstride : t.stateStride = s.stateStride)
      (hlayout : t.layout = s.layout) (hothers : ∀ other ≠ id, t.state other = s.state other) : Removed s id (.ok, t)

theorem removed_remove (hs : s.Valid) (id : AgentId) : Removed s id (s.remove id) := by
  by_cases hid : s.Has id
  · obtain ⟨index, hindex, hcell⟩ := hid
    rw [remove, hs.lowerBound_eq hindex hcell]
    have hcount : (s.erase index).count = s.count - 1 := rfl
    have hvalid : (s.erase index).Valid := by
      refine ⟨increasing_erase hs.ids, ?_, hs.capacity, hs.stride⟩
      exact (Nat.sub_le s.count 1).trans hs.count
    have hother : ∀ i < s.count, i ≠ index → s.ids i ≠ id := by
      intro i hi hne heq
      have hsame := (hs.lowerBound_eq hi heq).symm.trans (hs.lowerBound_eq hindex hcell)
      exact hne (congrArg Prod.fst hsame)
    have hhas : ∀ other, (s.erase index).Has other ↔ other ≠ id ∧ s.Has other := by
      intro other
      constructor
      · rintro ⟨j, hj, hids⟩
        obtain ⟨i, hi, hne, hold⟩ := erase_cases hj
        have hids : s.ids i = other := hold.symm.trans hids
        exact ⟨hids ▸ hother i hi hne, i, hi, hids⟩
      · rintro ⟨hne, i, hi, hids⟩
        have hindices : i ≠ index := fun heq => hne (hids.symm.trans (heq ▸ hcell))
        obtain ⟨j, hj, hold, -⟩ := erase_index hindex hi hindices
        exact ⟨j, hj, hold.trans hids⟩
    refine .removed ⟨index, hindex, hcell⟩ hvalid (by omega) hhas rfl rfl fun other hne => ?_
    refine hs.state_congr hvalid ((hhas other).trans (and_iff_right hne)) fun i hi hids => ?_
    have hindices : i ≠ index := fun heq => hne (hids.symm.trans (heq ▸ hcell))
    obtain ⟨j, hj, hold, hslot⟩ := erase_index hindex hi hindices
    exact ⟨j, hj, hold.trans hids, hslot⟩
  · obtain ⟨index, hbound, -⟩ := hs.lowerBound_of_not_has hid
    rw [remove, hbound]
    exact .absent hid

theorem valid_new {layout : StateLayout} (h : new layout = .ok s) : s.Valid ∧ s.layout = layout := by
  unfold new at h
  dsimp only at h
  split at h
  · cases h
  · rename_i hsize
    cases h
    have hstride : alignedStride layout.stateSize = 0 ↔ layout.stateSize = 0 := by
      constructor
      · intro hzero
        by_contra hne
        exact hsize ⟨hne, hzero⟩
      · intro hzero
        rw [alignedStride, if_pos hzero]
    exact ⟨⟨fun i j _ hj => absurd hj (Nat.not_lt_zero j), le_rfl, Nat.zero_le _, hstride⟩, rfl⟩

theorem Valid.step (hs : s.Valid) (op : Op) : (s.step op).Valid ∧ (s.step op).layout = s.layout := by
  cases op with
  | add blocks id =>
    have hadd := added_add hs blocks id
    rw [StateStore.step]
    revert hadd
    generalize s.add blocks id = result
    rintro (_ | _ | ⟨-, hvalid, -, -, -, hlayout, -, -⟩)
    · exact ⟨hs, rfl⟩
    · exact ⟨hs, rfl⟩
    · exact ⟨hvalid, hlayout⟩
  | remove id =>
    have hremove := removed_remove hs id
    rw [StateStore.step]
    revert hremove
    generalize s.remove id = result
    rintro (_ | ⟨-, hvalid, -, -, -, hlayout, -⟩)
    · exact ⟨hs, rfl⟩
    · exact ⟨hvalid, hlayout⟩
  | write states => exact ⟨⟨hs.ids, hs.count, hs.capacity, hs.stride⟩, rfl⟩

theorem Reached.valid {layout : StateLayout} (h : Reached layout s) : s.Valid ∧ s.layout = layout := by
  induction h with
  | new h => exact valid_new h
  | step hs op ih =>
    obtain ⟨hvalid, hlayout⟩ := ih
    obtain ⟨hvalid', hlayout'⟩ := hvalid.step op
    exact ⟨hvalid', hlayout'.trans hlayout⟩

theorem Valid.find_eq_some_iff (hs : s.Valid) {offset : Nat} :
    s.find id = some offset ↔ s.stateStride ≠ 0 ∧ ∃ i < s.count, s.ids i = id ∧ offset = i * s.stateStride := by
  by_cases hid : s.Has id
  · obtain ⟨i, hi, hcell⟩ := hid
    rw [find, hs.lowerBound_eq hi hcell]
    by_cases hstride : s.stateStride = 0
    · simp [hstride]
    · simp only [Bool.not_true, Bool.false_or, beq_eq_false_iff_ne.mpr hstride, Bool.false_eq_true, if_false,
        Option.some.injEq]
      constructor
      · rintro rfl
        exact ⟨hstride, i, hi, hcell, rfl⟩
      · rintro ⟨-, j, hj, hcell', rfl⟩
        have hsame : i = j := congrArg Prod.fst ((hs.lowerBound_eq hi hcell).symm.trans (hs.lowerBound_eq hj hcell'))
        rw [hsame]
  · obtain ⟨index, hbound, -⟩ := hs.lowerBound_of_not_has hid
    rw [find, hbound]
    constructor
    · intro h
      cases h
    · rintro ⟨-, i, hi, hcell, -⟩
      exact absurd ⟨i, hi, hcell⟩ hid

/-- After any operations on a new store the ids ascend, as many are in use as there is room for, and every id is found at
    its own slot, unless the model has no state; then nothing is found. The next operation on any id gives it a fresh
    state, takes it away or changes nothing, and it leaves the state of every other id as it is. -/
theorem reached_store {layout : StateLayout} (h : Reached layout s) :
    (∀ i j, i < j → j < s.count → s.ids i < s.ids j) ∧ s.count ≤ s.capacity ∧
      (∀ id offset, s.find id = some offset ↔
        layout.stateSize ≠ 0 ∧ ∃ i < s.count, s.ids i = id ∧ offset = i * s.stateStride) ∧
      (∀ blocks id, Added s id (s.add blocks id)) ∧ ∀ id, Removed s id (s.remove id) := by
  obtain ⟨hvalid, hlayout⟩ := h.valid
  have hstride : s.stateStride ≠ 0 ↔ layout.stateSize ≠ 0 := hlayout ▸ not_congr hvalid.stride
  refine ⟨hvalid.ids, hvalid.count, fun id offset => ?_, added_add hvalid, removed_remove hvalid⟩
  rw [hvalid.find_eq_some_iff, hstride]

theorem counters_store :
    ∃ s, Reached ⟨16, none⟩ s ∧ s.count = 1 ∧ s.ids 0 = 30 ∧ s.find 30 = some 0 ∧ ∀ id, Removed s id (s.remove id) := by
  have hreached : Reached ⟨16, none⟩ (StateStore.step ⟨⟨16, none⟩, fun _ => 0, fun _ => 0, 16, 0, 0⟩
      (.add (some (fun _ => 7, fun _ => 7)) 30)) := .step (.new rfl) _
  obtain ⟨-, -, -, -, hremove⟩ := reached_store hreached
  exact ⟨_, hreached, rfl, rfl, by decide, hremove⟩

theorem stateless_id_not_found : ∃ s, Reached ⟨0, none⟩ s ∧ s.Has 30 ∧ s.find 30 = none := by
  refine ⟨StateStore.step ⟨⟨0, none⟩, fun _ => 0, fun _ => 0, 0, 0, 0⟩ (.add (some (fun _ => 7, fun _ => 7)) 30),
    .step (.new rfl) _, ⟨0, ?_, ?_⟩, ?_⟩
  · decide
  · decide
  · decide

end StateStore
end Cxpr.Bulk
