import Mathlib.Order.Lattice
import Mathlib.Order.Basic
import Mathlib.Order.Nat

/-! Binary search for the first position that does not lie below a key, over the cells of a block that are in use. -/

namespace LowerBound
variable {α : Type} [LinearOrder α]

/-- The search in the `count` cells from `first` on. Each turn leaves at most half of the cells, so that as many turns as
    cells are enough. -/
def search (cells : Nat → α) (key : α) : Nat → Nat → Nat → Nat
  | 0, first, _ => first
  | turns + 1, first, count =>
    if count = 0 then first
    else
      let step := count / 2
      let index := first + step
      if cells index < key then search cells key turns (index + 1) (count - (step + 1))
      else search cells key turns first step

/-- The first of the `count` cells that does not lie below the key. -/
def lowerBound (cells : Nat → α) (key : α) (count : Nat) : Nat := search cells key count 0 count

def Increasing (cells : Nat → α) (count : Nat) : Prop := ∀ i j, i < j → j < count → cells i < cells j

structure Splits (cells : Nat → α) (key : α) (count position : Nat) : Prop where
  le : position ≤ count
  below : ∀ i < position, cells i < key
  above : ∀ i, position ≤ i → i < count → key ≤ cells i

variable {cells : Nat → α} {key : α} {n : Nat}

theorem search_splits (hcells : Increasing cells n) (turns first count : Nat) (hturns : count ≤ turns)
    (hrange : first + count ≤ n) (hbelow : ∀ i < first, cells i < key)
    (habove : ∀ i, first + count ≤ i → i < n → key ≤ cells i) :
    Splits cells key n (search cells key turns first count) := by
  induction turns generalizing first count with
  | zero =>
    obtain rfl : count = 0 := Nat.le_zero.mp hturns
    exact ⟨hrange, hbelow, habove⟩
  | succ turns ih =>
    unfold search
    split
    · rename_i hzero
      subst hzero
      exact ⟨hrange, hbelow, habove⟩
    · rename_i hpos
      have hhalf : count / 2 < count := Nat.div_lt_self (Nat.pos_of_ne_zero hpos) (by decide)
      have hindex : first + count / 2 < n := by omega
      dsimp only
      split
      · rename_i hlt
        refine ih _ _ (by omega) (by omega) (fun i hi => ?_) fun i hi hin => habove i (by omega) hin
        rcases Nat.lt_succ_iff_lt_or_eq.mp hi with hi | rfl
        · exact (hcells i _ hi hindex).trans hlt
        · exact hlt
      · rename_i hge
        refine ih _ _ (by omega) (by omega) hbelow fun i hi hin => ?_
        rcases Nat.eq_or_lt_of_le hi with rfl | hi
        · exact not_lt.mp hge
        · exact (not_lt.mp hge).trans (hcells _ i hi hin).le

theorem lowerBound_splits (hcells : Increasing cells n) : Splits cells key n (lowerBound cells key n) :=
  search_splits hcells n 0 n le_rfl (by omega) nofun fun i hi hin => absurd hin (by omega)

theorem Splits.eq_of_cell {position i : Nat} (h : Splits cells key n position) (hcells : Increasing cells n) (hi : i < n)
    (hkey : cells i = key) : position = i := by
  have hle : position ≤ i := by
    by_contra hlt
    exact (h.below i (not_le.mp hlt)).ne hkey
  rcases Nat.eq_or_lt_of_le hle with heq | hlt
  · exact heq
  · have hbelow := hcells position i hlt hi
    have habove := h.above position le_rfl (hlt.trans hi)
    rw [hkey] at hbelow
    exact absurd hbelow (not_lt.mpr habove)

theorem Splits.mem_iff {position : Nat} (h : Splits cells key n position) (hcells : Increasing cells n) :
    (∃ i < n, cells i = key) ↔ position < n ∧ cells position = key := by
  constructor
  · rintro ⟨i, hi, hkey⟩
    obtain rfl := h.eq_of_cell hcells hi hkey
    exact ⟨hi, hkey⟩
  · rintro ⟨hlt, hkey⟩
    exact ⟨position, hlt, hkey⟩

end LowerBound
