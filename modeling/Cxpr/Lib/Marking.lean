import Mathlib.Data.List.Basic

/-! Marking what can be reached in a graph: a visit marks the node of a name and goes on to the names that the node
    mentions; a node that is marked is not visited again. -/

namespace Marking
variable {ν : Type}

/-- A graph over the nodes `0 .. count - 1`. A node mentions names, and a name can be that of no node. -/
structure Graph (ν : Type) where
  count : Nat
  index : ν → Option Nat
  mentions : Nat → List ν
  index_lt : ∀ {v i}, index v = some i → i < count

def visit (g : Graph ν) : Nat → ν → List Bool → List Bool
  | 0, _, marks => marks
  | depth + 1, v, marks =>
    match g.index v with
    | none => marks
    | some i =>
      if marks.getD i false then marks
      else (g.mentions i).foldl (fun marks w => visit g depth w marks) (marks.set i true)

inductive Reached (g : Graph ν) (roots : ν → Prop) : ν → Prop
  | root {v : ν} (h : roots v) : Reached g roots v
  | step {v w : ν} {i : Nat} (hv : Reached g roots v) (hi : g.index v = some i) (hw : w ∈ g.mentions i) : Reached g roots w

structure Visited (g : Graph ν) (roots : ν → Prop) (marks marks' : List Bool) : Prop where
  length : marks'.length = marks.length
  mono : ∀ i : Nat, marks[i]? = some true → marks'[i]? = some true
  root : ∀ v i, roots v → g.index v = some i → marks'[i]? = some true
  closed : ∀ i, marks'[i]? = some true → marks[i]? = some true ∨
    ∀ w ∈ g.mentions i, ∀ j, g.index w = some j → marks'[j]? = some true
  reached : ∀ i, marks'[i]? = some true → marks[i]? = some true ∨ ∃ v, Reached g roots v ∧ g.index v = some i

section
variable {g : Graph ν} {roots roots' : ν → Prop} {marks marks' marks'' : List Bool} {v : ν} {i : Nat}

theorem Reached.mono (hsub : ∀ v, roots v → roots' v) (h : Reached g roots v) : Reached g roots' v := by
  induction h with
  | root hv => exact .root (hsub _ hv)
  | step _ hi hw ih => exact .step ih hi hw

theorem Reached.of_mentions (hi : g.index v = some i) {w : ν} (h : Reached g (· ∈ g.mentions i) w) : Reached g (· = v) w := by
  induction h with
  | root hw => exact .step (.root rfl) hi hw
  | step _ hj hw ih => exact .step ih hj hw

theorem count_false_le (hlen : marks'.length = marks.length) (hmono : ∀ i : Nat, marks[i]? = some true → marks'[i]? = some true) :
    marks'.count false ≤ marks.count false := by
  induction marks generalizing marks' with
  | nil =>
    obtain rfl := List.length_eq_zero_iff.mp hlen
    exact Nat.le_refl _
  | cons m marks ih =>
    obtain ⟨m', rest, rfl⟩ := List.exists_cons_of_length_eq_add_one hlen
    have hrest := ih (Nat.succ.inj hlen) fun i hi => by simpa using hmono (i + 1) (by simpa using hi)
    cases m with
    | false => cases m' <;> simp <;> omega
    | true =>
      obtain rfl : m' = true := by simpa using hmono 0 rfl
      simpa using hrest

theorem count_false_set (hlt : i < marks.length) (hfree : marks.getD i false = false) :
    (marks.set i true).count false + 1 = marks.count false := by
  have hget : marks[i] = false := by simpa [List.getD_eq_getElem?_getD, hlt] using hfree
  have hpos : 0 < marks.count false := List.count_pos_iff.mpr (hget ▸ List.getElem_mem hlt)
  rw [List.count_set hlt, hget]
  simp
  omega

theorem Visited.refl (hroots : ∀ v, roots v → g.index v = none) (marks : List Bool) : Visited g roots marks marks where
  length := rfl
  mono := fun _ h => h
  root := fun v i hv hi => by rw [hroots v hv] at hi; cases hi
  closed := fun _ h => .inl h
  reached := fun _ h => .inl h

theorem Visited.trans (h : Visited g roots marks marks') (h' : Visited g roots' marks' marks'') :
    Visited g (fun v => roots v ∨ roots' v) marks marks'' where
  length := h'.length.trans h.length
  mono := fun i hi => h'.mono i (h.mono i hi)
  root := by
    rintro v i (hv | hv) hi
    · exact h'.mono i (h.root v i hv hi)
    · exact h'.root v i hv hi
  closed := by
    intro i hi
    rcases h'.closed i hi with hmarked | hnew
    · rcases h.closed i hmarked with hold | hall
      · exact .inl hold
      · exact .inr fun w hw j hj => h'.mono j (hall w hw j hj)
    · exact .inr hnew
  reached := by
    intro i hi
    rcases h'.reached i hi with hmarked | ⟨v, hv, hvi⟩
    · rcases h.reached i hmarked with hold | ⟨v, hv, hvi⟩
      · exact .inl hold
      · exact .inr ⟨v, hv.mono fun _ => .inl, hvi⟩
    · exact .inr ⟨v, hv.mono fun _ => .inr, hvi⟩

theorem Visited.congr (h : Visited g roots marks marks') (hroots : ∀ v, roots v ↔ roots' v) : Visited g roots' marks marks' := by
  obtain rfl : roots = roots' := funext fun v => propext (hroots v)
  exact h

theorem visited_foldl {step : List Bool → ν → List Bool} {n depth : Nat}
    (hstep : ∀ v marks, marks.length = n → marks.count false ≤ depth → Visited g (· = v) marks (step marks v)) (vs : List ν)
    (hlen : marks.length = n) (hdepth : marks.count false ≤ depth) : Visited g (· ∈ vs) marks (vs.foldl step marks) := by
  induction vs generalizing marks with
  | nil => exact Visited.refl (by simp) marks
  | cons v vs ih =>
    have hfirst := hstep v marks hlen hdepth
    have hrest := ih (hfirst.length.trans hlen) (Nat.le_trans (count_false_le hfirst.length hfirst.mono) hdepth)
    exact (hfirst.trans hrest).congr fun w => by simp

theorem Visited.enter (hi : g.index v = some i) (hlt : i < marks.length)
    (h : Visited g (· ∈ g.mentions i) (marks.set i true) marks') : Visited g (· = v) marks marks' := by
  have hset : ∀ j, (marks.set i true)[j]? = some true → j = i ∨ marks[j]? = some true := by
    intro j hj
    by_cases hji : i = j
    · exact .inl hji.symm
    · exact .inr (by rwa [List.getElem?_set_ne hji] at hj)
  have hself : (marks.set i true)[i]? = some true := by simp [hlt]
  refine ⟨by simpa using h.length, fun j hj => h.mono j ?_, ?_, fun j hj => ?_, fun j hj => ?_⟩
  · by_cases hji : i = j
    · exact hji ▸ hself
    · rwa [List.getElem?_set_ne hji]
  · rintro _ j rfl hj
    obtain rfl := Option.some.inj (hi.symm.trans hj)
    exact h.mono i hself
  · rcases h.closed j hj with hold | hall
    · rcases hset j hold with rfl | hold
      · exact .inr fun w hw k hk => h.root w k hw hk
      · exact .inl hold
    · exact .inr hall
  · rcases h.reached j hj with hold | ⟨w, hw, hwj⟩
    · rcases hset j hold with rfl | hold
      · exact .inr ⟨v, .root rfl, hi⟩
      · exact .inl hold
    · exact .inr ⟨w, hw.of_mentions hi, hwj⟩

theorem visited_visit {depth : Nat} (hlen : marks.length = g.count) (hdepth : marks.count false ≤ depth) (v : ν) :
    Visited g (· = v) marks (visit g depth v marks) := by
  induction depth generalizing v marks with
  | zero =>
    refine ⟨rfl, fun _ h => h, ?_, fun _ h => .inl h, fun _ h => .inl h⟩
    rintro _ i rfl hi
    have hlt : i < marks.length := hlen ▸ g.index_lt hi
    have hall := List.count_eq_zero.mp (Nat.le_zero.mp hdepth)
    show marks[i]? = some true
    rw [List.getElem?_eq_getElem hlt]
    cases hget : marks[i] with
    | true => rfl
    | false => exact absurd (hget ▸ List.getElem_mem hlt) hall
  | succ depth ih =>
    unfold visit
    cases hi : g.index v with
    | none => exact Visited.refl (by rintro _ rfl; exact hi) marks
    | some i =>
      have hlt : i < marks.length := hlen ▸ g.index_lt hi
      show Visited g (· = v) marks (if marks.getD i false then marks else _)
      split
      · rename_i hmarked
        refine ⟨rfl, fun _ h => h, ?_, fun _ h => .inl h, fun _ h => .inl h⟩
        rintro _ j rfl hj
        obtain rfl := Option.some.inj (hi.symm.trans hj)
        simpa [List.getD_eq_getElem?_getD, hlt] using hmarked
      · rename_i hfree
        have hcount := count_false_set hlt (by simpa using hfree)
        exact Visited.enter hi hlt
          (visited_foldl (fun w marks hlen hdepth => ih hlen hdepth w) _ (by simpa using hlen) (by omega))

theorem Visited.marked_iff {n : Nat} (h : Visited g roots (List.replicate n false) marks) (i : Nat) :
    marks[i]? = some true ↔ ∃ v, Reached g roots v ∧ g.index v = some i := by
  have hblank : (List.replicate n false)[i]? ≠ some true := by
    intro hi
    simp [List.getElem?_replicate] at hi
  constructor
  · intro hi
    exact (h.reached i hi).resolve_left hblank
  · rintro ⟨v, hv, hi⟩
    clear hblank
    induction hv generalizing i with
    | root hv => exact h.root _ i hv hi
    | @step v w k hv hk hw ih =>
      have hblank : (List.replicate n false)[k]? ≠ some true := by
        intro hk
        simp [List.getElem?_replicate] at hk
      exact (h.closed k (ih k hk)).resolve_left hblank w hw i hi

end
end Marking
