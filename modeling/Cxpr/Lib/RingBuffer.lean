import Mathlib.Data.List.Basic

/-! A circular buffer whose newest sample is at the head, over any type of samples. -/

structure RingBuffer (α : Type) where
  slots : List α
  head : Nat := 0
  count : Nat := 0

namespace RingBuffer
variable {α : Type}

/-- The sample becomes the newest one, in place of the oldest when no slot is free. -/
def append (r : RingBuffer α) (v : α) : RingBuffer α :=
  if r.slots.length = 0 then r
  else
    let head := (r.head + 1) % r.slots.length
    ⟨r.slots.set head v, head, if r.count < r.slots.length then r.count + 1 else r.count⟩

/-- The sample `depth` behind the newest one. -/
def read (r : RingBuffer α) (depth : Nat) : Option α :=
  if r.count ≤ depth then none else r.slots[(r.head + r.slots.length - depth) % r.slots.length]?

def setNewest (r : RingBuffer α) (v : α) : RingBuffer α := { r with slots := r.slots.set r.head v }

def clear (r : RingBuffer α) : RingBuffer α := { r with head := 0, count := 0 }

@[simp] theorem length_append (r : RingBuffer α) (v : α) : (r.append v).slots.length = r.slots.length := by
  unfold append
  split <;> simp

theorem setNewest_append (r : RingBuffer α) (v w : α) : (r.append v).setNewest w = r.append w := by
  unfold append
  split
  · rename_i hempty
    rw [List.length_eq_zero_iff] at hempty
    obtain ⟨slots, head, count⟩ := r
    cases hempty
    rfl
  · simp [setNewest]

def Seated (r : RingBuffer α) : Prop := r.head < r.slots.length

variable {r : RingBuffer α}

theorem Seated.append (h : r.Seated) (v : α) : (r.append v).Seated := by
  have hpos : 0 < r.slots.length := Nat.zero_lt_of_lt h
  unfold Seated
  rw [length_append, RingBuffer.append, if_neg (Nat.pos_iff_ne_zero.mp hpos)]
  exact Nat.mod_lt _ hpos

theorem Seated.clear (h : r.Seated) : r.clear.Seated := Nat.zero_lt_of_lt h

theorem read_append_succ (h : r.Seated) (v : α) {depth : Nat} (hd : depth + 1 < r.slots.length) :
    (r.append v).read (depth + 1) = r.read depth := by
  have hpos : r.slots.length ≠ 0 := Nat.pos_iff_ne_zero.mp (Nat.zero_lt_of_lt h)
  have hhead : (r.head + 1) % r.slots.length = if r.head + 1 = r.slots.length then 0 else r.head + 1 := by
    split
    · rename_i hlast
      rw [hlast, Nat.mod_self]
    · exact Nat.mod_eq_of_lt (by unfold Seated at h; omega)
  have hslot : ((r.head + 1) % r.slots.length + r.slots.length - (depth + 1)) % r.slots.length
      = (r.head + r.slots.length - depth) % r.slots.length := by
    rw [hhead]
    split
    · rename_i hlast
      rw [← Nat.add_mod_right (0 + _ - _)]
      congr 1
      omega
    · congr 1
      omega
  have hother : (r.head + 1) % r.slots.length ≠ (r.head + r.slots.length - depth) % r.slots.length := by
    have hle : r.slots.length - (depth + 1) < r.slots.length := by omega
    rw [← hslot, Nat.add_sub_assoc (Nat.le_of_lt hd), hhead]
    split
    · rw [Nat.zero_add, Nat.mod_eq_of_lt hle]
      omega
    · by_cases hwrap : r.head + 1 + (r.slots.length - (depth + 1)) < r.slots.length
      · rw [Nat.mod_eq_of_lt hwrap]
        omega
      · unfold Seated at h
        rw [Nat.mod_eq_sub_mod (by omega), Nat.mod_eq_of_lt (by omega)]
        omega
  have hcount : (r.append v).count ≤ depth + 1 ↔ r.count ≤ depth := by
    rw [append, if_neg hpos]
    show (if r.count < r.slots.length then r.count + 1 else r.count) ≤ depth + 1 ↔ _
    split <;> omega
  unfold read
  simp only [hcount, length_append]
  split
  · rfl
  · simp only [append, if_neg hpos, hslot]
    rw [List.getElem?_set_ne hother]

theorem read_append_zero (h : r.Seated) (v : α) : (r.append v).read 0 = some v := by
  have hpos : 0 < r.slots.length := Nat.zero_lt_of_lt h
  have hlt : (r.head + 1) % r.slots.length < r.slots.length := Nat.mod_lt _ hpos
  have hcount : ¬ (r.append v).count ≤ 0 := by
    rw [append, if_neg (Nat.pos_iff_ne_zero.mp hpos)]
    show ¬ (if r.count < r.slots.length then r.count + 1 else r.count) ≤ 0
    split
    · exact Nat.not_succ_le_zero _
    · omega
  unfold read
  rw [if_neg hcount, length_append, append, if_neg (Nat.pos_iff_ne_zero.mp hpos)]
  simp only [Nat.sub_zero, Nat.add_mod_right, Nat.mod_eq_of_lt hlt]
  exact List.getElem?_set_self hlt

structure Same (r r' : RingBuffer α) : Prop where
  length : r'.slots.length = r.slots.length
  head : r'.head = r.head
  count : r'.count = r.count
  seated : r.Seated
  bounded : r.count ≤ r.slots.length
  read : ∀ depth, r'.read depth = r.read depth

theorem count_append_le (h : r.count ≤ r.slots.length) (v : α) :
    (r.append v).count ≤ (r.append v).slots.length := by
  rw [length_append, append]
  split
  · exact h
  · show (if r.count < r.slots.length then r.count + 1 else r.count) ≤ r.slots.length
    split
    · assumption
    · exact h

theorem read_of_count_le {depth : Nat} (h : r.count ≤ depth) : r.read depth = none := if_pos h

theorem Same.append {r' : RingBuffer α} (h : r.Same r') (v : α) : (r.append v).Same (r'.append v) := by
  have hseated : r'.Seated := by
    have := h.seated
    unfold Seated at this ⊢
    rwa [h.head, h.length]
  have hcount : (r'.append v).count = (r.append v).count := by
    simp only [RingBuffer.append, h.length]
    split
    · exact h.count
    · simp only [h.count]
  refine ⟨?_, ?_, hcount, h.seated.append v, count_append_le h.bounded v, ?_⟩
  · rw [length_append, length_append, h.length]
  · simp only [RingBuffer.append, h.length]
    split
    · exact h.head
    · simp only [h.head]
  · intro depth
    cases depth with
    | zero => rw [read_append_zero h.seated, read_append_zero hseated]
    | succ depth =>
      by_cases hd : depth + 1 < r.slots.length
      · have hd' : depth + 1 < r'.slots.length := by rwa [h.length]
        rw [read_append_succ h.seated v hd, read_append_succ hseated v hd', h.read]
      · have hfull : (r.append v).count ≤ depth + 1 := by
          have hle := count_append_le h.bounded v
          rw [length_append] at hle
          exact Nat.le_trans hle (Nat.not_lt.mp hd)
        rw [read_of_count_le hfull, read_of_count_le (hcount ▸ hfull)]

theorem same_of_empty {r' : RingBuffer α} (hpos : 0 < r.slots.length) (hlength : r'.slots.length = r.slots.length)
    (hr : r.head = 0 ∧ r.count = 0) (hr' : r'.head = 0 ∧ r'.count = 0) : r.Same r' := by
  refine ⟨hlength, hr'.1.trans hr.1.symm, hr'.2.trans hr.2.symm, ?_, ?_, ?_⟩
  · unfold Seated
    rwa [hr.1]
  · rw [hr.2]
    exact Nat.zero_le _
  · intro depth
    have hnone : r.count ≤ depth := by simp [hr.2]
    have hnone' : r'.count ≤ depth := by simp [hr'.2]
    rw [read_of_count_le hnone, read_of_count_le hnone']

/-- The samples of a buffer are the first of `past`, the newest one first. -/
structure Holds (r : RingBuffer α) (past : List α) : Prop where
  seated : r.Seated
  bounded : r.count ≤ r.slots.length
  read : ∀ depth, r.read depth = (past.take r.slots.length)[depth]?

theorem holds_empty {slots : List α} (h : 0 < slots.length) : Holds ⟨slots, 0, 0⟩ [] where
  seated := h
  bounded := Nat.zero_le _
  read := fun depth => (read_of_count_le (Nat.zero_le depth)).trans (by simp)

theorem Holds.append {past : List α} (h : r.Holds past) (v : α) : (r.append v).Holds (v :: past) where
  seated := h.seated.append v
  bounded := count_append_le h.bounded v
  read := by
    intro depth
    rw [length_append]
    cases depth with
    | zero =>
      rw [read_append_zero h.seated, List.getElem?_take_of_lt (Nat.zero_lt_of_lt h.seated)]
      rfl
    | succ depth =>
      by_cases hd : depth + 1 < r.slots.length
      · rw [read_append_succ h.seated v hd, h.read, List.getElem?_take_of_lt hd,
          List.getElem?_take_of_lt (Nat.lt_of_succ_lt hd), List.getElem?_cons_succ]
      · have hfull : (r.append v).count ≤ depth + 1 := by
          have hle := count_append_le h.bounded v
          rw [length_append] at hle
          exact Nat.le_trans hle (Nat.not_lt.mp hd)
        rw [read_of_count_le hfull, List.getElem?_take_eq_none (Nat.not_lt.mp hd)]

end RingBuffer
