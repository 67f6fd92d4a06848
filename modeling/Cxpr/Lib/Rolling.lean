import Mathlib.Algebra.BigOperators.Group.List.Basic
import Mathlib.Algebra.Group.Basic
import Mathlib.Data.List.ReduceOption
import Mathlib.Tactic.Abel

/-! The number and the sum of samples that can be missing, kept while a window moves over the samples: one sample
    leaves and one comes. -/

namespace Rolling
variable {M : Type}

def tally (xs : List (Option M)) : Nat := xs.reduceOption.length

def one (x : Option M) : Nat := x.isSome.toNat

theorem tally_cons (x : Option M) (xs : List (Option M)) : tally (x :: xs) = one x + tally xs := by
  cases x with
  | none => simp [tally, one]
  | some a => simp [tally, one, List.reduceOption_cons_of_some, Nat.add_comm]

theorem tally_le_length (xs : List (Option M)) : tally xs ≤ xs.length := List.reduceOption_length_le xs

theorem tally_append (xs ys : List (Option M)) : tally (xs ++ ys) = tally xs + tally ys := by
  simp [tally, List.reduceOption_append]

theorem tally_replicate_none (n : Nat) : tally (List.replicate n (none : Option M)) = 0 := by
  simp [tally, List.reduceOption_replicate_none]

variable {xs : List (Option M)} {old : Option M}

theorem tally_set {i : Nat} (h : xs[i]? = some old) (v : Option M) :
    tally (xs.set i v) + one old = tally xs + one v := by
  induction xs generalizing i with
  | nil => nomatch h
  | cons x xs ih =>
    cases i with
    | zero =>
      cases h
      rw [List.set_cons_zero, tally_cons, tally_cons]
      omega
    | succ i =>
      have hrest := ih h
      rw [List.set_cons_succ, tally_cons, tally_cons]
      omega

theorem tally_move {n : Nat} (h : xs[n]? = some old) (v : Option M) :
    tally ((v :: xs).take (n + 1)) + one old = tally (xs.take (n + 1)) + one v := by
  have hlast : xs.take (n + 1) = xs.take n ++ [old] := by rw [List.take_add_one, h]; rfl
  have hsingle : tally [old] = one old := by rw [tally_cons]; simp [tally]
  rw [List.take_succ_cons, tally_cons, hlast, tally_append, hsingle]
  omega

variable [AddCommGroup M]

def total (xs : List (Option M)) : M := xs.reduceOption.sum

def term (x : Option M) : M := x.getD 0

theorem total_cons (x : Option M) (xs : List (Option M)) : total (x :: xs) = term x + total xs := by
  cases x with
  | none => simp [total, term]
  | some a => simp [total, term, List.reduceOption_cons_of_some]

theorem total_append (xs ys : List (Option M)) : total (xs ++ ys) = total xs + total ys := by
  simp [total, List.reduceOption_append]

theorem total_replicate_none (n : Nat) : total (List.replicate n (none : Option M)) = 0 := by
  simp [total, List.reduceOption_replicate_none]

theorem total_set {i : Nat} (h : xs[i]? = some old) (v : Option M) :
    total (xs.set i v) = total xs - term old + term v := by
  induction xs generalizing i with
  | nil => nomatch h
  | cons x xs ih =>
    cases i with
    | zero =>
      cases h
      rw [List.set_cons_zero, total_cons, total_cons]
      abel
    | succ i =>
      rw [List.set_cons_succ, total_cons, total_cons, ih h]
      abel

theorem total_move {n : Nat} (h : xs[n]? = some old) (v : Option M) :
    total ((v :: xs).take (n + 1)) = total (xs.take (n + 1)) - term old + term v := by
  have hlast : xs.take (n + 1) = xs.take n ++ [old] := by rw [List.take_add_one, h]; rfl
  have hsingle : total [old] = term old := by rw [total_cons]; simp [total]
  rw [List.take_succ_cons, total_cons, hlast, total_append, hsingle]
  abel

end Rolling
