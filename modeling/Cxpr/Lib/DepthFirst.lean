import Mathlib.Data.List.Chain
import Mathlib.Data.List.Nodup
import Mathlib.Data.List.Perm.Subperm
import Mathlib.Logic.Function.Basic
import Mathlib.Logic.Relation

/-! Depth-first topological sort over the nodes `0 .. n - 1` with an explicit stack, one mark for the nodes that are sorted
    and one for those on the stack. A node leaves the stack when all its successors are sorted; edges to itself do not
    count. -/

namespace DepthFirst
open Relation

structure State where
  emitted : Nat → Bool := fun _ => false
  temp : Nat → Bool := fun _ => false
  order : List Nat := []
  stack : List Nat := []

/-- What a loop comes to; `exhausted` is no end within the turns it had. -/
inductive Result (α : Type) where
  | finished (a : α)
  | cycle
  | exhausted

variable (edges : Nat → List Nat)

def State.next (s : State) (i : Nat) : Option Nat := (edges i).find? fun j => j != i && !s.emitted j

/-- One turn for the node on the top of the stack; `none` when its successor is on the stack too. -/
def State.turn (s : State) (i : Nat) (rest : List Nat) : Option State :=
  match s.next edges i with
  | some j =>
    if s.temp j then none
    else some { s with temp := Function.update s.temp j true, stack := j :: s.stack }
  | none =>
    some { emitted := Function.update s.emitted i true, temp := Function.update s.temp i false, order := s.order ++ [i],
           stack := rest }

def search : Nat → State → Result State
  | turns, s =>
    match s.stack with
    | [] => .finished s
    | i :: rest =>
      match turns with
      | 0 => .exhausted
      | turns + 1 =>
        match s.turn edges i rest with
        | none => .cycle
        | some s => search turns s

def sortFrom (n : Nat) : List Nat → State → Result (List Nat)
  | [], s => .finished s.order
  | start :: starts, s =>
    if s.emitted start then sortFrom n starts s
    else
      match search edges (2 * n) { s with temp := Function.update s.temp start true, stack := [start] } with
      | .finished s => sortFrom n starts s
      | .cycle => .cycle
      | .exhausted => .exhausted

def sort (n : Nat) : Result (List Nat) := sortFrom edges n (List.range n) {}

def Edge (i j : Nat) : Prop := j ∈ edges i ∧ j ≠ i

def Sorted (order : List Nat) : Prop :=
  ∀ before i after, order = before ++ i :: after → ∀ j, Edge edges i j → j ∈ before

variable {edges}

theorem sorted_nil : Sorted edges [] := by
  intro before i after h
  simp at h

theorem Sorted.concat {order : List Nat} {i : Nat} (h : Sorted edges order) (hi : ∀ j, Edge edges i j → j ∈ order) :
    Sorted edges (order ++ [i]) := by
  intro before k after heq j hj
  rcases List.eq_nil_or_concat after with rfl | ⟨after, last, rfl⟩
  · obtain ⟨rfl, hk⟩ := List.append_inj' heq rfl
    obtain rfl : i = k := by simpa using hk
    exact hi j hj
  · have heq' : order ++ [i] = (before ++ k :: after) ++ [last] := by simpa using heq
    exact h before k after (List.append_inj' heq' rfl).1 j hj

theorem Sorted.before {order : List Nat} (h : Sorted edges order) {i j : Nat} (hij : TransGen (Edge edges) i j) :
    ∀ before after, order = before ++ i :: after → j ∈ before := by
  induction hij using TransGen.head_induction_on with
  | single hedge => exact fun before after heq => h before _ after heq j hedge
  | head hedge _ ih =>
    intro before after heq
    obtain ⟨front, back, rfl⟩ := List.append_of_mem (h before _ after heq _ hedge)
    have hmem := ih front (back ++ _ :: after) (by rw [heq, List.append_assoc]; rfl)
    exact List.mem_append_left _ hmem

theorem Sorted.acyclic {order : List Nat} (h : Sorted edges order) (hnodup : order.Nodup) {i : Nat} (hi : i ∈ order) :
    ¬ TransGen (Edge edges) i i := by
  intro hcycle
  obtain ⟨before, after, rfl⟩ := List.append_of_mem hi
  exact (List.disjoint_of_nodup_append hnodup) (h.before hcycle before after rfl) List.mem_cons_self

structure Inv (edges : Nat → List Nat) (n : Nat) (s : State) : Prop where
  emitted : ∀ i, s.emitted i = true ↔ i ∈ s.order
  temp : ∀ i, s.temp i = true ↔ i ∈ s.stack
  nodup : (s.stack ++ s.order).Nodup
  bound : ∀ i ∈ s.stack ++ s.order, i < n
  chain : s.stack.IsChain fun above below => Edge edges below above
  sorted : Sorted edges s.order

theorem path_of_chain {i j : Nat} {rest : List Nat}
    (h : (i :: rest).IsChain fun above below => Edge edges below above) (hj : j ∈ rest) : TransGen (Edge edges) j i := by
  induction rest generalizing i with
  | nil => cases hj
  | cons k rest ih =>
    rw [List.isChain_cons_cons] at h
    rcases List.mem_cons.mp hj with rfl | hj
    · exact .single h.1
    · exact (ih h.2 hj).tail h.1

section
variable {n : Nat} {s s' : State} {i : Nat} {rest : List Nat}

theorem next_eq_some {j : Nat} (h : s.next edges i = some j) : Edge edges i j ∧ s.emitted j = false := by
  have hfound := List.find?_some h
  simp only [Bool.and_eq_true, bne_iff_ne, Bool.not_eq_true'] at hfound
  exact ⟨⟨List.mem_of_find?_eq_some h, hfound.1⟩, hfound.2⟩

theorem next_eq_none (h : s.next edges i = none) {j : Nat} (hj : Edge edges i j) : s.emitted j = true := by
  have hall := List.find?_eq_none.mp h j hj.1
  simpa [hj.2] using hall

def State.left (s : State) (n : Nat) : Nat := 2 * (n - s.order.length) - s.stack.length

theorem Inv.length_le (h : Inv edges n s) : s.stack.length + s.order.length ≤ n := by
  have hsub : (s.stack ++ s.order).Subperm (List.range n) :=
    List.subperm_of_subset h.nodup fun i hi => List.mem_range.mpr (h.bound i hi)
  simpa using hsub.length_le

theorem Inv.cycle (h : Inv edges n s) (hstack : s.stack = i :: rest) (hturn : s.turn edges i rest = none) :
    ∃ j < n, TransGen (Edge edges) j j := by
  unfold State.turn at hturn
  cases hnext : s.next edges i with
  | none =>
    rw [hnext] at hturn
    cases hturn
  | some j =>
    rw [hnext] at hturn
    dsimp only at hturn
    split at hturn
    · rename_i htemp
      obtain ⟨hedge, -⟩ := next_eq_some hnext
      have hj : j ∈ s.stack := (h.temp j).mp htemp
      have hrest : j ∈ rest := by
        rw [hstack] at hj
        exact (List.mem_cons.mp hj).resolve_left hedge.2
      refine ⟨j, h.bound j (List.mem_append_left _ hj), (path_of_chain (hstack ▸ h.chain) hrest).tail hedge⟩
    · cases hturn

structure Turned (edges : Nat → List Nat) (n : Nat) (s s' : State) : Prop where
  inv : Inv edges n s'
  left : s'.left n < s.left n
  order : ∃ more, s'.order = s.order ++ more
  kept : ∀ k ∈ s.stack ++ s.order, k ∈ s'.stack ++ s'.order
  fromStack : ∀ k ∈ s'.order, k ∈ s.order ∨ k ∈ s.stack
  alongEdge : ∀ k ∈ s'.stack, k ∈ s.stack ∨ ∃ i ∈ s.stack, Edge edges i k

theorem Inv.turn (hedges : ∀ i < n, ∀ j ∈ edges i, j < n) (h : Inv edges n s) (hstack : s.stack = i :: rest)
    (hturn : s.turn edges i rest = some s') : Turned edges n s s' := by
  unfold State.turn at hturn
  have hi : i < n := h.bound i (by simp [hstack])
  have hlength := h.length_le
  cases hnext : s.next edges i with
  | none =>
    rw [hnext] at hturn
    cases hturn
    have hnew : i ∉ rest ∧ i ∉ s.order := by
      have hnodup := h.nodup
      rw [hstack, List.cons_append, List.nodup_cons, List.mem_append, not_or] at hnodup
      exact hnodup.1
    have hperm : (rest ++ (s.order ++ [i])).Perm (s.stack ++ s.order) := by
      rw [hstack, ← List.append_assoc]
      exact (List.perm_append_singleton i _)
    refine ⟨⟨fun j => ?_, fun j => ?_, hperm.nodup_iff.mpr h.nodup, fun j hj => h.bound j (hperm.mem_iff.mp hj), ?_, ?_⟩, ?_,
      ⟨[i], rfl⟩, fun k hk => hperm.mem_iff.mpr hk, fun k hk => ?_, fun k hk => .inl ?_⟩
    · by_cases hj : j = i
      · simp [hj]
      · simp [hj, h.emitted j]
    · by_cases hj : j = i
      · simp [hj, hnew.1]
      · simp [hj, h.temp j, hstack]
    · have hchain := h.chain
      rw [hstack] at hchain
      exact hchain.of_cons
    · exact h.sorted.concat fun j hj => (h.emitted j).mp (next_eq_none hnext hj)
    · show 2 * (n - (s.order ++ [i]).length) - rest.length < 2 * (n - s.order.length) - s.stack.length
      rw [hstack, List.length_cons] at hlength ⊢
      rw [List.length_append, List.length_singleton]
      omega
    · rcases List.mem_append.mp hk with hk | hk
      · exact .inl hk
      · rw [List.mem_singleton.mp hk, hstack]
        exact .inr List.mem_cons_self
    · rw [hstack]
      exact List.mem_cons_of_mem i hk
  | some j =>
    rw [hnext] at hturn
    dsimp only at hturn
    split at hturn
    · cases hturn
    · rename_i htemp
      cases hturn
      obtain ⟨hedge, hemitted⟩ := next_eq_some hnext
      have hstacked : j ∉ s.stack := fun hj => htemp ((h.temp j).mpr hj)
      have hsorted : j ∉ s.order := fun hj => by
        rw [(h.emitted j).mpr hj] at hemitted
        cases hemitted
      have hbound := hedges i hi j hedge.1
      have hnodup : (j :: s.stack ++ s.order).Nodup := List.nodup_cons.mpr ⟨by simp [hstacked, hsorted], h.nodup⟩
      have hroom : (j :: s.stack ++ s.order).length ≤ n := by
        have hsub : (j :: s.stack ++ s.order).Subperm (List.range n) :=
          List.subperm_of_subset hnodup fun k hk => List.mem_range.mpr (by
            rcases List.mem_cons.mp hk with rfl | hk
            · exact hbound
            · exact h.bound k hk)
        simpa using hsub.length_le
      refine ⟨⟨h.emitted, fun k => ?_, hnodup, fun k hk => ?_, ?_, h.sorted⟩, ?_, ⟨[], by simp⟩,
        fun k hk => List.mem_cons_of_mem j hk, fun k hk => .inl hk, fun k hk => ?_⟩
      · by_cases hk : k = j
        · simp [hk]
        · simp [hk, h.temp k]
      · rcases List.mem_cons.mp hk with rfl | hk
        · exact hbound
        · exact h.bound k hk
      · rw [hstack, List.isChain_cons_cons]
        exact ⟨hedge, hstack ▸ h.chain⟩
      · simp only [State.left, List.length_cons, List.length_append] at hroom ⊢
        omega
      · rcases List.mem_cons.mp hk with rfl | hk
        · exact .inr ⟨i, by simp [hstack], hedge⟩
        · exact .inl hk

end

section
variable {n : Nat} {s : State}

structure Searched (edges : Nat → List Nat) (n : Nat) (s s' : State) : Prop where
  inv : Inv edges n s'
  empty : s'.stack = []
  order : ∃ more, s'.order = s.order ++ more
  kept : ∀ k ∈ s.stack ++ s.order, k ∈ s'.order
  reached : ∀ k ∈ s'.order, k ∈ s.order ∨ ∃ i ∈ s.stack, ReflTransGen (Edge edges) i k

theorem Inv.searched (h : Inv edges n s) (hstack : s.stack = []) : Searched edges n s s :=
  ⟨h, hstack, ⟨[], by simp⟩, fun k hk => by rwa [hstack, List.nil_append] at hk, fun _ hk => .inl hk⟩

theorem Turned.searched {s₁ s' : State} (h : Turned edges n s s₁) (h' : Searched edges n s₁ s') : Searched edges n s s' where
  inv := h'.inv
  empty := h'.empty
  order := by
    obtain ⟨more, hmore⟩ := h.order
    obtain ⟨more', hmore'⟩ := h'.order
    exact ⟨more ++ more', by rw [hmore', hmore, List.append_assoc]⟩
  kept k hk := h'.kept k (h.kept k hk)
  reached k hk := by
    rcases h'.reached k hk with hk | ⟨i, hi, hpath⟩
    · rcases h.fromStack k hk with hk | hk
      · exact .inl hk
      · exact .inr ⟨k, hk, .refl⟩
    · rcases h.alongEdge i hi with hi | ⟨i', hi', hedge⟩
      · exact .inr ⟨i, hi, hpath⟩
      · exact .inr ⟨i', hi', hpath.head hedge⟩

theorem search_spec (hedges : ∀ i < n, ∀ j ∈ edges i, j < n) (turns : Nat) (h : Inv edges n s) (hleft : s.left n ≤ turns) :
    (search edges turns s = .cycle ∧ ∃ j < n, TransGen (Edge edges) j j) ∨
      ∃ s', search edges turns s = .finished s' ∧ Searched edges n s s' := by
  induction turns generalizing s with
  | zero =>
    have hlength := h.length_le
    unfold search
    cases hstack : s.stack with
    | nil => exact .inr ⟨s, rfl, h.searched hstack⟩
    | cons i rest =>
      rw [State.left] at hleft
      rw [hstack, List.length_cons] at hleft hlength
      omega
  | succ turns ih =>
    unfold search
    cases hstack : s.stack with
    | nil => exact .inr ⟨s, rfl, h.searched hstack⟩
    | cons i rest =>
      dsimp only
      cases hturn : s.turn edges i rest with
      | none => exact .inl ⟨rfl, h.cycle hstack hturn⟩
      | some s₁ =>
        have hturned := h.turn hedges hstack hturn
        have hless := hturned.left
        rcases ih hturned.inv (by omega) with hcycle | ⟨s', hsearch, hsearched⟩
        · exact .inl hcycle
        · exact .inr ⟨s', hsearch, hturned.searched hsearched⟩

theorem Inv.start (h : Inv edges n s) (hstack : s.stack = []) {i : Nat} (hi : i < n) (hnew : s.emitted i ≠ true) :
    Inv edges n { s with temp := Function.update s.temp i true, stack := [i] } where
  emitted := h.emitted
  temp j := by
    by_cases hj : j = i
    · simp [hj]
    · have htemp := h.temp j
      rw [hstack] at htemp
      simp [hj, htemp]
  nodup := by
    have hnodup := h.nodup
    rw [hstack, List.nil_append] at hnodup
    exact List.nodup_cons.mpr ⟨fun hmem => hnew ((h.emitted i).mpr hmem), hnodup⟩
  bound j hj := by
    rcases List.mem_cons.mp hj with rfl | hj
    · exact hi
    · exact h.bound j (List.mem_append_right _ hj)
  chain := List.isChain_singleton i
  sorted := h.sorted

theorem Inv.stack_length_le (h : Inv edges n s) : s.stack.length ≤ n := Nat.le_trans (Nat.le_add_right _ _) h.length_le

theorem search_start (hedges : ∀ i < n, ∀ j ∈ edges i, j < n) (h : Inv edges n s) (hstack : s.stack = []) {i : Nat}
    (hi : i < n) (hnew : s.emitted i ≠ true) :
    (search edges (2 * n) { s with temp := Function.update s.temp i true, stack := [i] } = .cycle ∧
        ∃ j < n, TransGen (Edge edges) j j) ∨
      ∃ s', search edges (2 * n) { s with temp := Function.update s.temp i true, stack := [i] } = .finished s' ∧
        Inv edges n s' ∧ s'.stack = [] ∧ i ∈ s'.order ∧ (∃ more, s'.order = s.order ++ more) ∧
        ∀ k ∈ s'.order, k ∈ s.order ∨ ReflTransGen (Edge edges) i k := by
  have hleft : State.left { s with temp := Function.update s.temp i true, stack := [i] } n ≤ 2 * n := by
    simp only [State.left]
    omega
  rcases search_spec hedges (2 * n) (h.start hstack hi hnew) hleft with hcycle | ⟨s', hsearch, hsearched⟩
  · exact .inl hcycle
  · refine .inr ⟨s', hsearch, hsearched.inv, hsearched.empty, hsearched.kept i List.mem_cons_self, hsearched.order,
      fun k hk => ?_⟩
    rcases hsearched.reached k hk with hk | ⟨i', hi', hpath⟩
    · exact .inl hk
    · rw [List.mem_singleton.mp hi'] at hpath
      exact .inr hpath

theorem sortFrom_spec (hedges : ∀ i < n, ∀ j ∈ edges i, j < n) {starts : List Nat} (hstarts : ∀ i ∈ starts, i < n)
    (h : Inv edges n s) (hstack : s.stack = []) :
    (sortFrom edges n starts s = .cycle ∧ ∃ j < n, TransGen (Edge edges) j j) ∨
      ∃ order, sortFrom edges n starts s = .finished order ∧ order.Nodup ∧ Sorted edges order ∧ (∀ i ∈ order, i < n) ∧
        (∀ i ∈ starts, i ∈ order) ∧ ∃ more, order = s.order ++ more := by
  induction starts generalizing s with
  | nil =>
    have hnodup := h.nodup
    have hbound := h.bound
    rw [hstack, List.nil_append] at hnodup hbound
    exact .inr ⟨s.order, rfl, hnodup, h.sorted, hbound, fun _ hi => (List.not_mem_nil hi).elim, [], by simp⟩
  | cons start starts ih =>
    obtain ⟨hstart, hstarts⟩ := List.forall_mem_cons.mp hstarts
    unfold sortFrom
    by_cases hemitted : s.emitted start = true
    · rw [if_pos hemitted]
      rcases ih hstarts h hstack with hcycle | ⟨order, hsort, hnodup, hsorted, hbound, hall, more, rfl⟩
      · exact .inl hcycle
      · refine .inr ⟨_, hsort, hnodup, hsorted, hbound, List.forall_mem_cons.mpr ⟨?_, hall⟩, more, rfl⟩
        exact List.mem_append_left _ ((h.emitted start).mp hemitted)
    · rw [if_neg hemitted]
      rcases search_start hedges h hstack hstart hemitted with
        ⟨hsearch, hcycle⟩ | ⟨s', hsearch, hinv, hempty, hmem, ⟨more, hmore⟩, -⟩
      · rw [hsearch]
        exact .inl ⟨rfl, hcycle⟩
      · rw [hsearch]
        dsimp only
        rcases ih hstarts hinv hempty with hcycle | ⟨order, hsort, hnodup, hsorted, hbound, hall, more', rfl⟩
        · exact .inl hcycle
        · refine .inr ⟨_, hsort, hnodup, hsorted, hbound, List.forall_mem_cons.mpr ⟨List.mem_append_left _ hmem, hall⟩,
            more ++ more', ?_⟩
          rw [hmore, List.append_assoc]

end

section
variable {n : Nat}

theorem inv_empty (edges : Nat → List Nat) (n : Nat) : Inv edges n {} :=
  ⟨by simp, by simp, by simp, by simp, by simp, sorted_nil⟩

theorem sort_spec (hedges : ∀ i < n, ∀ j ∈ edges i, j < n) :
    (sort edges n = .cycle ∧ ∃ j < n, TransGen (Edge edges) j j) ∨
      ∃ order, sort edges n = .finished order ∧ order.Perm (List.range n) ∧ Sorted edges order := by
  rcases sortFrom_spec hedges (fun i hi => List.mem_range.mp hi) (inv_empty edges n) rfl with
    hcycle | ⟨order, hsort, hnodup, hsorted, hbound, hall, -⟩
  · exact .inl hcycle
  · refine .inr ⟨order, hsort, ?_, hsorted⟩
    rw [List.perm_ext_iff_of_nodup hnodup List.nodup_range]
    exact fun i => ⟨fun hi => List.mem_range.mpr (hbound i hi), hall i⟩

theorem sort_eq_cycle_iff (hedges : ∀ i < n, ∀ j ∈ edges i, j < n) :
    sort edges n = .cycle ↔ ∃ j < n, TransGen (Edge edges) j j := by
  rcases sort_spec hedges with ⟨hsort, hcycle⟩ | ⟨order, hsort, hperm, hsorted⟩
  · exact ⟨fun _ => hcycle, fun _ => hsort⟩
  · constructor
    · intro h
      rw [hsort] at h
      cases h
    · rintro ⟨j, hj, hcycle⟩
      have hmem : j ∈ order := hperm.mem_iff.mpr (List.mem_range.mpr hj)
      exact absurd hcycle (hsorted.acyclic (hperm.nodup_iff.mpr List.nodup_range) hmem)

theorem sort_first (hedges : ∀ i < n + 1, ∀ j ∈ edges i, j < n + 1) {order : List Nat}
    (h : sort edges (n + 1) = .finished order) :
    ∃ front back, order = front ++ back ∧ 0 ∈ front ∧ ∀ k ∈ front, ReflTransGen (Edge edges) 0 k := by
  rw [sort, List.range_succ_eq_map, sortFrom, if_neg (by simp)] at h
  rcases search_start hedges (inv_empty edges (n + 1)) rfl (Nat.succ_pos n) (by simp) with
    ⟨hsearch, -⟩ | ⟨s, hsearch, hinv, hempty, hmem, -, hreached⟩
  · rw [hsearch] at h
    cases h
  · rw [hsearch] at h
    dsimp only at h
    have hstarts : ∀ i ∈ (List.range n).map Nat.succ, i < n + 1 := by
      intro i hi
      obtain ⟨k, hk, rfl⟩ := List.mem_map.mp hi
      exact Nat.succ_lt_succ (List.mem_range.mp hk)
    rcases sortFrom_spec hedges hstarts hinv hempty with ⟨hsort, -⟩ | ⟨order', hsort, -, -, -, -, more, rfl⟩
    · rw [hsort] at h
      cases h
    · rw [hsort] at h
      cases h
      exact ⟨s.order, more, rfl, hmem, fun k hk => (hreached k hk).resolve_left (List.not_mem_nil)⟩

end

end DepthFirst
