import Mathlib.Data.Nat.Basic
import Mathlib.Logic.Function.Basic

/-! Blocks of memory as functions from offsets to cells: moving, copying and filling ranges of cells. -/

namespace Block
variable {α : Type}

def memmove (dst src n : Nat) (m : Nat → α) : Nat → α := fun i =>
  if dst ≤ i ∧ i < dst + n then m (src + (i - dst)) else m i

def memcpy (dst n : Nat) (source : Nat → α) (m : Nat → α) : Nat → α := fun i =>
  if dst ≤ i ∧ i < dst + n then source (i - dst) else m i

variable {dst src n : Nat} {m source : Nat → α} {i : Nat}

theorem memmove_inside (h : i < n) : memmove dst src n m (dst + i) = m (src + i) := by
  rw [memmove, if_pos ⟨Nat.le_add_right dst i, Nat.add_lt_add_left h dst⟩, Nat.add_sub_cancel_left]

theorem memmove_outside (h : i < dst ∨ dst + n ≤ i) : memmove dst src n m i = m i := by
  rw [memmove, if_neg]
  rintro ⟨hle, hlt⟩
  rcases h with h | h
  · exact absurd hle (Nat.not_le.mpr h)
  · exact absurd hlt (Nat.not_lt.mpr h)

theorem memcpy_inside (h : i < n) : memcpy dst n source m (dst + i) = source i := by
  rw [memcpy, if_pos ⟨Nat.le_add_right dst i, Nat.add_lt_add_left h dst⟩, Nat.add_sub_cancel_left]

theorem memcpy_outside (h : i < dst ∨ dst + n ≤ i) : memcpy dst n source m i = m i := by
  rw [memcpy, if_neg]
  rintro ⟨hle, hlt⟩
  rcases h with h | h
  · exact absurd hle (Nat.not_le.mpr h)
  · exact absurd hlt (Nat.not_lt.mpr h)

def slot (m : Nat → α) (width index : Nat) : List α := (List.range width).map fun k => m (index * width + k)

variable {width index : Nat}

theorem slot_congr {m' : Nat → α} {index' : Nat} (h : ∀ k < width, m' (index' * width + k) = m (index * width + k)) :
    slot m' width index' = slot m width index :=
  List.map_congr_left fun k hk => h k (List.mem_range.mp hk)

theorem slot_offset_lt {a b k : Nat} (hk : k < width) (hab : a < b) : a * width + k < b * width :=
  calc a * width + k < a * width + width := Nat.add_lt_add_left hk _
    _ = (a + 1) * width := (Nat.succ_mul a width).symm
    _ ≤ b * width := Nat.mul_le_mul_right width hab

theorem slot_memmove_inside {a b c j : Nat} (hj : j < c) :
    slot (memmove (a * width) (b * width) (c * width) m) width (a + j) = slot m width (b + j) := by
  refine slot_congr fun k hk => ?_
  rw [Nat.add_mul, Nat.add_assoc, memmove_inside (slot_offset_lt hk hj), Nat.add_mul, Nat.add_assoc]

theorem slot_memmove_outside {a b c j : Nat} (hj : j < a ∨ a + c ≤ j) :
    slot (memmove (a * width) (b * width) (c * width) m) width j = slot m width j := by
  refine slot_congr fun k hk => memmove_outside ?_
  rcases hj with hj | hj
  · exact .inl (slot_offset_lt hk hj)
  · right
    calc a * width + c * width = (a + c) * width := (Nat.add_mul a c width).symm
      _ ≤ j * width := Nat.mul_le_mul_right width hj
      _ ≤ j * width + k := Nat.le_add_right _ _

theorem slot_memcpy_self : slot (memcpy (index * width) width source m) width index = (List.range width).map source :=
  List.map_congr_left fun _ hk => memcpy_inside (List.mem_range.mp hk)

theorem slot_memcpy_of_ne {j : Nat} (hj : j ≠ index) :
    slot (memcpy (index * width) width source m) width j = slot m width j := by
  refine slot_congr fun k hk => memcpy_outside ?_
  rcases Nat.lt_or_gt_of_ne hj with hj | hj
  · exact .inl (slot_offset_lt hk hj)
  · right
    calc index * width + width = (index + 1) * width := (Nat.succ_mul index width).symm
      _ ≤ j * width := Nat.mul_le_mul_right width hj
      _ ≤ j * width + k := Nat.le_add_right _ _

def scatter (offset : Nat → Nat) (width n : Nat) (source : Nat → Nat → α) (m : Nat → α) : Nat → α :=
  (List.range n).foldl (fun m i => memcpy (offset i) width (source i) m) m

variable {offset : Nat → Nat} {sources : Nat → Nat → α}

theorem scatter_succ (n : Nat) (m : Nat → α) :
    scatter offset width (n + 1) sources m = memcpy (offset n) width (sources n) (scatter offset width n sources m) := by
  rw [scatter, List.range_succ, List.foldl_append]
  rfl

theorem scatter_outside {p : Nat} (hp : ∀ i < n, p < offset i ∨ offset i + width ≤ p) :
    scatter offset width n sources m p = m p := by
  induction n with
  | zero => rfl
  | succ n ih =>
    rw [scatter_succ, memcpy_outside (hp n (Nat.lt_succ_self n))]
    exact ih fun i hi => hp i (Nat.lt_succ_of_lt hi)

theorem scatter_inside {k : Nat} (hoffset : ∀ i j, i < j → j < n → offset i + width ≤ offset j) (hi : i < n) (hk : k < width) :
    scatter offset width n sources m (offset i + k) = sources i k := by
  induction n with
  | zero => cases hi
  | succ n ih =>
    rw [scatter_succ]
    rcases Nat.lt_succ_iff_lt_or_eq.mp hi with hi | rfl
    · have hbelow := hoffset i n hi (Nat.lt_succ_self n)
      rw [memcpy_outside (.inl (Nat.lt_of_lt_of_le (Nat.add_lt_add_left hk _) hbelow))]
      exact ih (fun a b hab hb => hoffset a b hab (Nat.lt_succ_of_lt hb)) hi
    · exact memcpy_inside hk

theorem memcpy_comm {dst' n' : Nat} {source' : Nat → α} (h : dst + n ≤ dst' ∨ dst' + n' ≤ dst) :
    memcpy dst n source (memcpy dst' n' source' m) = memcpy dst' n' source' (memcpy dst n source m) := by
  funext p
  unfold memcpy
  by_cases hp : dst ≤ p ∧ p < dst + n
  · have hp' : ¬ (dst' ≤ p ∧ p < dst' + n') := by omega
    rw [if_pos hp, if_neg hp', if_pos hp]
  · rw [if_neg hp]
    by_cases hp' : dst' ≤ p ∧ p < dst' + n'
    · rw [if_pos hp', if_pos hp']
    · rw [if_neg hp', if_neg hp', if_neg hp]

def store (cells : List (Nat × α)) (m : Nat → α) : Nat → α := cells.foldl (fun m cell => Function.update m cell.1 cell.2) m

variable {cells cells' : List (Nat × α)}

theorem store_outside {p : Nat} (hp : ∀ cell ∈ cells, cell.1 ≠ p) : store cells m p = m p := by
  induction cells generalizing m with
  | nil => rfl
  | cons cell cells ih =>
    show store cells (Function.update m cell.1 cell.2) p = m p
    rw [ih fun c hc => hp c (List.mem_cons_of_mem cell hc), Function.update_of_ne (hp cell List.mem_cons_self).symm]

theorem store_update {p : Nat} {a : α} (hp : ∀ cell ∈ cells, cell.1 ≠ p) :
    store cells (Function.update m p a) = Function.update (store cells m) p a := by
  induction cells generalizing m with
  | nil => rfl
  | cons cell cells ih =>
    show store cells (Function.update (Function.update m p a) cell.1 cell.2) =
      Function.update (store cells (Function.update m cell.1 cell.2)) p a
    rw [Function.update_comm (hp cell List.mem_cons_self).symm, ih fun c hc => hp c (List.mem_cons_of_mem cell hc)]

theorem store_comm (h : ∀ cell ∈ cells, ∀ cell' ∈ cells', cell.1 ≠ cell'.1) :
    store cells (store cells' m) = store cells' (store cells m) := by
  induction cells' generalizing m with
  | nil => rfl
  | cons cell' cells' ih =>
    show store cells (store cells' (Function.update m cell'.1 cell'.2)) =
      store cells' (Function.update (store cells m) cell'.1 cell'.2)
    rw [ih fun c hc c' hc' => h c hc c' (List.mem_cons_of_mem cell' hc'),
      store_update fun c hc => h c hc cell' List.mem_cons_self]

end Block
