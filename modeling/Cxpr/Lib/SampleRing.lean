import Mathlib.Data.List.Basic

/-! A circular buffer that knows the slot it writes next, over any type of samples. Pushing keeps the last samples in
    the order they came, as many as there are slots. -/

structure SampleRing (α : Type) where
  values : List α
  count : Nat := 0
  next : Nat := 0

namespace SampleRing
variable {α : Type}

def push (r : SampleRing α) (v : α) : SampleRing α :=
  if r.values.length = 0 then r
  else ⟨r.values.set r.next v, if r.count < r.values.length then r.count + 1 else r.count,
    (r.next + 1) % r.values.length⟩

/-- The sample `i` behind the newest one. -/
def newest (r : SampleRing α) (i : Nat) : Option α :=
  if i < r.count then r.values[(r.next + r.values.length - 1 - i) % r.values.length]? else none

/-- The samples of a ring are the first of `past`, the newest one first. -/
structure Holds (r : SampleRing α) (past : List α) : Prop where
  count : r.count = min past.length r.values.length
  next : 0 < r.values.length → r.next < r.values.length
  newest : ∀ i, r.newest i = (past.take r.values.length)[i]?

@[simp] theorem length_push (r : SampleRing α) (v : α) : (r.push v).values.length = r.values.length := by
  unfold push
  split <;> simp

theorem slot_eq {n len k : Nat} (hn : n < len) (hk : k < len) :
    (n + len - 1 - k) % len = if k < n then n - 1 - k else n + len - 1 - k := by
  split
  · have hsplit : n + len - 1 - k = n - 1 - k + len := by omega
    rw [hsplit, Nat.add_mod_right, Nat.mod_eq_of_lt (by omega)]
  · exact Nat.mod_eq_of_lt (by omega)

theorem next_push_eq {n len : Nat} (hn : n < len) : (n + 1) % len = if n + 1 = len then 0 else n + 1 := by
  split
  · rename_i h
    rw [h, Nat.mod_self]
  · exact Nat.mod_eq_of_lt (by omega)

variable {r : SampleRing α} {past : List α}

theorem holds_empty (values : List α) : Holds ⟨values, 0, 0⟩ [] where
  count := by simp
  next := id
  newest := by simp [SampleRing.newest]

theorem holds_replicate (n : Nat) (v : α) : Holds ⟨List.replicate n v, n, 0⟩ (List.replicate n v) where
  count := by simp
  next := id
  newest := by
    intro i
    simp only [SampleRing.newest, List.length_replicate, List.take_replicate, Nat.min_self]
    by_cases hi : i < n
    · have hslot : (0 + n - 1 - i) % n < n := Nat.mod_lt _ (Nat.zero_lt_of_lt hi)
      rw [if_pos hi, List.getElem?_replicate_of_lt hslot, List.getElem?_replicate_of_lt hi]
    · rw [if_neg hi, List.getElem?_eq_none_iff.mpr (by simpa using hi)]

theorem newest_push_zero (hn : r.next < r.values.length) (v : α) : (r.push v).newest 0 = some v := by
  have hpos : r.values.length ≠ 0 := by omega
  have hcount : 0 < (r.push v).count := by
    rw [push, if_neg hpos]
    show 0 < if r.count < r.values.length then r.count + 1 else r.count
    split <;> omega
  have hslot : ((r.next + 1) % r.values.length + r.values.length - 1 - 0) % r.values.length = r.next := by
    rw [slot_eq (Nat.mod_lt _ (by omega)) (by omega), next_push_eq hn]
    split <;> split <;> omega
  rw [newest, if_pos hcount, length_push]
  simp only [push, if_neg hpos, hslot]
  rw [List.getElem?_set_self hn]

theorem newest_push_succ (hn : r.next < r.values.length) (hc : r.count ≤ r.values.length) (v : α) (i : Nat) :
    (r.push v).newest (i + 1) = if i + 1 < r.values.length then r.newest i else none := by
  have hpos : r.values.length ≠ 0 := by omega
  have hcount : (r.push v).count = if r.count < r.values.length then r.count + 1 else r.count := by
    rw [push, if_neg hpos]
  by_cases hi : i + 1 < (r.push v).count
  · have hlen : i + 1 < r.values.length := by
      rw [hcount] at hi
      split at hi <;> omega
    have hold : i < r.count := by
      rw [hcount] at hi
      split at hi <;> omega
    have hslot : ((r.next + 1) % r.values.length + r.values.length - 1 - (i + 1)) % r.values.length
        = (r.next + r.values.length - 1 - i) % r.values.length := by
      rw [slot_eq (Nat.mod_lt _ (by omega)) hlen, slot_eq hn (by omega), next_push_eq hn]
      split <;> split <;> split <;> omega
    have hother : r.next ≠ (r.next + r.values.length - 1 - i) % r.values.length := by
      rw [slot_eq hn (by omega)]
      split <;> omega
    rw [newest, if_pos hi, length_push, if_pos hlen, newest, if_pos hold]
    simp only [push, if_neg hpos, hslot]
    rw [List.getElem?_set_ne hother]
  · rw [newest, if_neg hi]
    split
    · rw [newest, if_neg]
      rw [hcount] at hi
      split at hi <;> omega
    · rfl

theorem Holds.push (h : Holds r past) (v : α) : Holds (r.push v) (v :: past) := by
  obtain ⟨hcount, hnext, hnewest⟩ := h
  by_cases hpos : r.values.length = 0
  · have hsame : r.push v = r := by rw [SampleRing.push, if_pos hpos]
    rw [hsame]
    refine ⟨by omega, hnext, fun i => ?_⟩
    rw [hnewest, hpos]
    rfl
  · have hn := hnext (by omega)
    have hc : r.count ≤ r.values.length := by omega
    refine ⟨?_, fun _ => ?_, fun i => ?_⟩
    · rw [length_push, SampleRing.push, if_neg hpos, List.length_cons]
      show (if r.count < r.values.length then r.count + 1 else r.count) = _
      split <;> omega
    · rw [length_push, SampleRing.push, if_neg hpos]
      exact Nat.mod_lt _ (by omega)
    · rw [length_push]
      cases i with
      | zero =>
        rw [newest_push_zero hn, List.getElem?_take_of_lt (by omega)]
        rfl
      | succ i =>
        rw [newest_push_succ hn hc, hnewest]
        simp only [List.getElem?_take, List.getElem?_cons_succ]
        by_cases hi : i + 1 < r.values.length
        · rw [if_pos hi, if_pos hi, if_pos (Nat.lt_of_succ_lt hi)]
        · rw [if_neg hi, if_neg hi]

end SampleRing
