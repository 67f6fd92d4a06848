import Mathlib.Data.List.Basic

/-! Scanners: a list is read from left to right by a machine whose state says where in the list it is. The first place
    that the machine marks, and the pieces between the places where it cuts. Over any alphabet and any machine. -/

namespace Scan
variable {σ α : Type}

def find (step : σ → α → σ) (hit : σ → List α → Bool) : σ → List α → Option Nat
  | _, [] => none
  | s, x :: xs => if hit s (x :: xs) then some 0 else (find step hit (step s x) xs).map (· + 1)

def split (step : σ → α → σ) (cut : σ → α → Bool) : σ → List α → List (List α)
  | _, [] => [[]]
  | s, x :: xs =>
    if cut s x then [] :: split step cut (step s x) xs else (split step cut (step s x) xs).modifyHead (x :: ·)

def dropTo (step : σ → α → σ) (hit : σ → List α → Bool) : σ → List α → List α
  | _, [] => []
  | s, x :: xs => if hit s (x :: xs) then x :: xs else dropTo step hit (step s x) xs

variable {step : σ → α → σ} {hit : σ → List α → Bool} {cut : σ → α → Bool}

variable {xs : List α}

theorem dropTo_of_hit {s : σ} {x : α} (h : hit s (x :: xs) = true) :
    dropTo step hit s (x :: xs) = x :: xs := by
  rw [dropTo, if_pos h]

theorem dropTo_of_not_hit {s : σ} {x : α} (h : hit s (x :: xs) = false) :
    dropTo step hit s (x :: xs) = dropTo step hit (step s x) xs := by
  rw [dropTo, h, if_neg Bool.false_ne_true]

theorem dropTo_suffix (s : σ) (xs : List α) : dropTo step hit s xs <:+ xs := by
  induction xs generalizing s with
  | nil => exact List.suffix_refl _
  | cons x xs ih =>
    rw [dropTo]
    split
    · exact List.suffix_refl _
    · exact (ih (step s x)).trans (List.suffix_cons x xs)

theorem find_hit {s : σ} {i : Nat} (h : find step hit s xs = some i) :
    hit ((xs.take i).foldl step s) (xs.drop i) = true := by
  induction xs generalizing s i with
  | nil => cases h
  | cons x xs ih =>
    rw [find] at h
    split at h
    · rename_i hhere
      cases h
      exact hhere
    · obtain ⟨j, hj, rfl⟩ := Option.map_eq_some_iff.mp h
      exact ih hj

theorem split_ne_nil (s : σ) (xs : List α) : split step cut s xs ≠ [] := by
  induction xs generalizing s with
  | nil => simp [split]
  | cons x xs ih =>
    rw [split]
    split
    · simp
    · cases hsplit : split step cut (step s x) xs with
      | nil => exact absurd hsplit (ih _)
      | cons piece pieces => simp

theorem length_of_mem_split {s : σ} {piece : List α} (h : piece ∈ split step cut s xs) : piece.length ≤ xs.length := by
  induction xs generalizing s piece with
  | nil =>
    obtain rfl := List.mem_singleton.mp h
    exact Nat.le_refl _
  | cons x xs ih =>
    rw [split] at h
    split at h
    · rcases List.mem_cons.mp h with rfl | h
      · exact Nat.zero_le _
      · exact Nat.le_trans (ih h) (Nat.le_succ _)
    · cases hsplit : split step cut (step s x) xs with
      | nil => exact absurd hsplit (split_ne_nil _ _)
      | cons first pieces =>
        rw [hsplit, List.modifyHead_cons] at h
        rcases List.mem_cons.mp h with rfl | h
        · exact Nat.succ_le_succ (ih (hsplit ▸ List.mem_cons_self))
        · exact Nat.le_trans (ih (hsplit ▸ List.mem_cons_of_mem _ h)) (Nat.le_succ _)

theorem modifyHead_append {xs ys : List (List α)} (h : xs ≠ []) (f : List α → List α) :
    (xs ++ ys).modifyHead f = xs.modifyHead f ++ ys := by
  cases xs with
  | nil => exact absurd rfl h
  | cons x xs => rfl

theorem split_append_cut {s : σ} {c : α} (hcut : cut (xs.foldl step s) c = true) (ys : List α) :
    split step cut s (xs ++ c :: ys) = split step cut s xs ++ split step cut (step (xs.foldl step s) c) ys := by
  induction xs generalizing s with
  | nil => simp [split, (show cut s c = true from hcut)]
  | cons x xs ih =>
    rw [List.cons_append, split, ih hcut, split]
    split
    · rfl
    · rw [modifyHead_append (split_ne_nil _ _)]
      rfl

theorem split_concat {s : σ} {c : α} (hcut : cut (xs.foldl step s) c = false) :
    ∃ pieces last, split step cut s xs = pieces ++ [last] ∧ split step cut s (xs ++ [c]) = pieces ++ [last ++ [c]] := by
  induction xs generalizing s with
  | nil =>
    refine ⟨[], [], rfl, ?_⟩
    simp [split, (show cut s c = false from hcut)]
  | cons x xs ih =>
    obtain ⟨pieces, last, hxs, hconcat⟩ := ih hcut
    rw [List.cons_append, split, split, hxs, hconcat]
    split
    · exact ⟨[] :: pieces, last, rfl, rfl⟩
    · cases pieces with
      | nil => exact ⟨[], x :: last, rfl, rfl⟩
      | cons piece pieces => exact ⟨(x :: piece) :: pieces, last, rfl, rfl⟩

def Whole (step : σ → α → σ) (cut : σ → α → Bool) : σ → List α → Bool
  | _, [] => true
  | s, x :: xs => !cut s x && Whole step cut (step s x) xs

theorem split_of_whole {s : σ} (h : Whole step cut s xs = true) : split step cut s xs = [xs] := by
  induction xs generalizing s with
  | nil => rfl
  | cons x xs ih =>
    rw [Whole, Bool.and_eq_true, Bool.not_eq_true'] at h
    rw [split, h.1, ih h.2]
    rfl

end Scan
