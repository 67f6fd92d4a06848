import Mathlib.Data.List.Basic

/-! Changing the first entry of a list that passes a test, or a new one behind the others when none does. -/

namespace List
variable {α : Type} {p q : α → Bool} {new : α} {f : α → α}

def upsert (p : α → Bool) (new : α) (f : α → α) : List α → List α
  | [] => [f new]
  | x :: l => if p x then f x :: l else x :: upsert p new f l

theorem upsert_nil : [].upsert p new f = [f new] := rfl

theorem upsert_cons (x : α) (l : List α) : (x :: l).upsert p new f = if p x then f x :: l else x :: l.upsert p new f := rfl

theorem find?_upsert_same (hq : ∀ x, q x = p x) (hf : ∀ x, p (f x) = p x) (hnew : p new = true) (l : List α) :
    (l.upsert p new f).find? q = some (f ((l.find? p).getD new)) := by
  have heq : q = p := funext hq
  subst heq
  induction l with
  | nil => simp [upsert_nil, hf, hnew]
  | cons x l ih =>
    rw [upsert_cons]
    by_cases hx : q x = true
    · rw [if_pos hx, find?_cons_of_pos (by rw [hf, hx]), find?_cons_of_pos hx, Option.getD_some]
    · rw [if_neg hx, find?_cons_of_neg hx, find?_cons_of_neg hx, ih]

theorem find?_upsert_other (hq : ∀ x, p x = true → q x = false) (hf : ∀ x, q (f x) = q x) (hnew : q new = false) (l : List α) :
    (l.upsert p new f).find? q = l.find? q := by
  induction l with
  | nil => simp [upsert_nil, hf, hnew]
  | cons x l ih =>
    rw [upsert_cons]
    by_cases hx : p x = true
    · have hqx : ¬ q x = true := by simp [hq x hx]
      rw [if_pos hx, find?_cons_of_neg (by rwa [hf]), find?_cons_of_neg hqx]
    · rw [if_neg hx]
      by_cases hqx : q x = true
      · rw [find?_cons_of_pos hqx, find?_cons_of_pos hqx]
      · rw [find?_cons_of_neg hqx, find?_cons_of_neg hqx, ih]

variable {l : List α}

theorem mem_upsert {y : α} (h : y ∈ l.upsert p new f) : y ∈ l ∨ ∃ x ∈ new :: l, y = f x := by
  induction l with
  | nil => exact .inr ⟨new, by simp, by simpa [upsert_nil] using h⟩
  | cons x l ih =>
    rw [upsert_cons] at h
    split at h
    · rcases mem_cons.mp h with rfl | hl
      · exact .inr ⟨x, by simp, rfl⟩
      · exact .inl (mem_cons_of_mem _ hl)
    · rcases mem_cons.mp h with rfl | hrest
      · exact .inl mem_cons_self
      · rcases ih hrest with hl | ⟨z, hz, rfl⟩
        · exact .inl (mem_cons_of_mem _ hl)
        · refine .inr ⟨z, ?_, rfl⟩
          rcases mem_cons.mp hz with rfl | hz
          · exact mem_cons_self
          · exact mem_cons_of_mem _ (mem_cons_of_mem _ hz)

theorem upsert_of_find?_eq_none (h : l.find? p = none) : l.upsert p new f = l ++ [f new] := by
  induction l with
  | nil => rfl
  | cons x l ih =>
    have hx : ¬ p x = true := fun hx => by rw [find?_cons_of_pos hx] at h; cases h
    rw [find?_cons_of_neg hx] at h
    rw [upsert_cons, if_neg hx, ih h, cons_append]

theorem upsert_of_find?_eq_some {x : α} (h : l.find? p = some x) :
    l.upsert p new f = l.replaceF fun y => if p y then some (f x) else none := by
  induction l with
  | nil => cases h
  | cons y l ih =>
    rw [upsert_cons, replaceF]
    by_cases hy : p y = true
    · rw [find?_cons_of_pos hy] at h
      cases h
      rw [if_pos hy, if_pos hy]
    · rw [find?_cons_of_neg hy] at h
      rw [if_neg hy, if_neg hy, ih h]

end List
