import Mathlib.Data.List.Nodup
import Mathlib.Data.List.Perm.Subperm
import Mathlib.Logic.Function.Basic
import Mathlib.Logic.Relation
import Mathlib.Data.Fintype.EquivFin
import Mathlib.Order.WellFounded

/-! Topological sorting of the nodes `0 .. n - 1` of a graph given by a Boolean relation: a depth-first search for a cycle
    that is nested to a bounded depth, and Kahn's queue of the nodes that wait for nothing more. -/

namespace TopoSort
open Relation
variable (dep : Nat → Nat → Bool) (n : Nat)

def Edge (i j : Nat) : Prop := (i < n ∧ j < n) ∧ dep i j = true

def Cyclic : Prop := ∃ i, TransGen (Edge dep n) i i

/-- Every node once, behind all that it depends on. -/
def Ordered (order : List Nat) : Prop :=
  order.Perm (List.range n) ∧ ∀ before i after, order = before ++ i :: after → ∀ j, Edge dep n i j → j ∈ before

/-! ### The search for a cycle -/

inductive Mark where
  | unvisited | active | done
deriving DecidableEq

/-- One turn of the loop over the nodes: once a cycle was found nothing more is visited. -/
def look (skip : Nat → Bool) (visit : Nat → (Nat → Mark) → Bool × (Nat → Mark)) (s : Bool × (Nat → Mark)) (i : Nat) :
    Bool × (Nat → Mark) :=
  if s.1 || skip i then s
  else
    match s.2 i with
    | .unvisited => visit i s.2
    | .active => (true, s.2)
    | .done => s

/-- The visit of a node; the fuel is what is left of the depth. -/
def search : Nat → Nat → (Nat → Mark) → Bool × (Nat → Mark)
  | 0, _, marks => (true, marks)
  | fuel + 1, node, marks =>
    let marks := Function.update marks node .active
    if dep node node then (true, marks)
    else
      let s := (List.range n).foldl (look (fun i => i == node || !dep node i) (search fuel)) (false, marks)
      if s.1 then s else (false, Function.update s.2 node .done)

def hasCycle : Bool :=
  ((List.range n).foldl (look (fun _ => false) (search dep n (n + 1))) (false, fun _ => .unvisited)).1

/-- What is left to wait for: the other nodes that `i` depends on and that are not among the done ones. -/
def waits (done : List Nat) (i : Nat) : List Nat := (List.range n).filter fun j => i != j && dep i j && !done.contains j

/-- One turn of the loop that tells a node that another one is done. -/
def notify (node : Nat) (s : (Nat → Nat) × List Nat) (i : Nat) : (Nat → Nat) × List Nat :=
  if i != node && dep i node then
    let left := s.1 i - 1
    (Function.update s.1 i left, if left = 0 then s.2 ++ [i] else s.2)
  else s

/-- The loop over the queue. -/
def loop : Nat → (Nat → Nat) → List Nat → List Nat → List Nat
  | 0, _, _, order => order
  | _ + 1, _, [], order => order
  | fuel + 1, degree, node :: queue, order =>
    let (degree, queue) := (List.range n).foldl (notify dep node) (degree, queue)
    loop fuel degree queue (order ++ [node])

/-- The nodes in the order in which they leave the queue. -/
def queued : List Nat :=
  let degree := fun i => (waits dep n [] i).length
  loop dep n n degree ((List.range n).filter fun i => degree i = 0) []

/-- The search for a cycle and the queue; `none` if there is a cycle. -/
def sort : Option (List Nat) :=
  if n = 0 then some []
  else if hasCycle dep n then none
  else
    let order := queued dep n
    if order.length ≠ n then none else some order

/-- What visits that find no cycle make of the marks. -/
structure Passed (marks marks' : Nat → Mark) : Prop where
  active : ∀ i, marks' i = .active ↔ marks i = .active
  done : ∀ i, marks i = .done → marks' i = .done
  checked : ∀ i, marks' i = .done → marks i = .done ∨ dep i i = false

/-- A cycle was found, or there was none and the marks are as they should be. -/
def Outcome (goal : (Nat → Mark) → Prop) (marks : Nat → Mark) (s : Bool × (Nat → Mark)) : Prop :=
  s.1 = true ∧ Cyclic dep n ∨ s.1 = false ∧ Passed dep marks s.2 ∧ goal s.2

/-- What holds between two turns of the loop. -/
structure Inv (degree : Nat → Nat) (queue order : List Nat) : Prop where
  nodup : (order ++ queue).Nodup
  bound : ∀ i ∈ order ++ queue, i < n
  degree_eq : ∀ i < n, degree i = (waits dep n order i).length
  mem_iff : ∀ i < n, i ∈ order ++ queue ↔ degree i = 0
  ordered : order.Pairwise fun a b => dep a b = false

variable {dep n} {marks marks' marks'' : Nat → Mark}

theorem Passed.refl (marks : Nat → Mark) : Passed dep marks marks := ⟨fun _ => .rfl, fun _ h => h, fun _ h => .inl h⟩

theorem Passed.trans (h : Passed dep marks marks') (h' : Passed dep marks' marks'') : Passed dep marks marks'' where
  active i := (h'.active i).trans (h.active i)
  done i hi := h'.done i (h.done i hi)
  checked i hi := (h'.checked i hi).elim (h.checked i) .inr

section
variable {skip : Nat → Bool} {visit : Nat → (Nat → Mark) → Bool × (Nat → Mark)}

theorem foldl_look_found (nodes : List Nat) {s : Bool × (Nat → Mark)} (h : s.1 = true) :
    (nodes.foldl (look skip visit) s).1 = true := by
  induction nodes with
  | nil => exact h
  | cons i nodes ih => rwa [List.foldl_cons, look, if_pos (by simp [h])]

theorem outcome_foldl {start : Nat → Mark} (nodes : List Nat)
    (hlook : ∀ i ∈ nodes, ∀ m, Passed dep start m →
      Outcome dep n (fun m' => skip i = false → m' i = .done) m (look skip visit (false, m) i))
    (hmarks : Passed dep start marks) :
    Outcome dep n (fun m => ∀ i ∈ nodes, skip i = false → m i = .done) marks
      (nodes.foldl (look skip visit) (false, marks)) := by
  induction nodes generalizing marks with
  | nil => exact .inr ⟨rfl, .refl marks, by simp⟩
  | cons node nodes ih =>
    obtain ⟨hnode, hnodes⟩ := List.forall_mem_cons.mp hlook
    rw [List.foldl_cons]
    rcases hnode marks hmarks with ⟨hfound, hcycle⟩ | ⟨hnone, hpassed, hdone⟩
    · exact .inl ⟨foldl_look_found nodes hfound, hcycle⟩
    · rcases hturn : look skip visit (false, marks) node with ⟨found, m⟩
      rw [hturn] at hnone hpassed hdone
      obtain rfl : found = false := hnone
      rcases ih hnodes (hmarks.trans hpassed) with hcycle | ⟨hnone, hpassed', hrest⟩
      · exact .inl hcycle
      · exact .inr ⟨hnone, hpassed.trans hpassed', List.forall_mem_cons.mpr ⟨fun h => hpassed'.done node (hdone h), hrest⟩⟩

theorem outcome_look {i : Nat} (hactive : skip i = false → marks i = .active → Cyclic dep n)
    (hvisit : skip i = false → marks i = .unvisited → Outcome dep n (fun m => m i = .done) marks (visit i marks)) :
    Outcome dep n (fun m => skip i = false → m i = .done) marks (look skip visit (false, marks) i) := by
  unfold look
  cases hskip : skip i with
  | true => exact .inr ⟨rfl, .refl marks, fun h => by cases h⟩
  | false =>
    rw [if_neg (by simp)]
    dsimp only
    cases hmark : marks i with
    | unvisited => exact (hvisit hskip hmark).imp_right fun ⟨hnone, hpassed, hdone⟩ => ⟨hnone, hpassed, fun _ => hdone⟩
    | active => exact .inl ⟨rfl, hactive hskip hmark⟩
    | done => exact .inr ⟨rfl, .refl marks, fun _ => hmark⟩

end

theorem length_le {nodes : List Nat} (hnodup : nodes.Nodup) (hbound : ∀ i ∈ nodes, i < n) : nodes.length ≤ n := by
  have hsub : nodes.Subperm (List.range n) :=
    List.subperm_of_subset hnodup fun i hi => List.mem_range.mpr (hbound i hi)
  simpa using hsub.length_le

/-- The visits that are under way are those of the active nodes: as long as there is fuel for one more than the nodes that
    are not active, a visit that runs out of it would be nested deeper than there are nodes. -/
theorem outcome_search {fuel node : Nat} {path : List Nat} (hnode : node < n) (hnew : marks node = .unvisited)
    (hnodup : path.Nodup) (hpath : ∀ i, marks i = .active ↔ i ∈ path)
    (hreach : ∀ i ∈ path, i < n ∧ TransGen (Edge dep n) i node) (hfuel : n < fuel + path.length) :
    Outcome dep n (fun m => m node = .done) marks (search dep n fuel node marks) := by
  induction fuel generalizing node path marks with
  | zero =>
    have := length_le hnodup fun i hi => (hreach i hi).1
    omega
  | succ fuel ih =>
    have hfresh : node ∉ path := fun h => by
      rw [(hpath node).mpr h] at hnew
      cases hnew
    have hpath' : ∀ i, Function.update marks node .active i = .active ↔ i ∈ node :: path := by
      intro i
      by_cases hi : i = node
      · simp [hi]
      · simp [hi, hpath i]
    unfold search
    dsimp only
    cases hself : dep node node with
    | true => exact .inl ⟨rfl, node, .single ⟨⟨hnode, hnode⟩, hself⟩⟩
    | false =>
      rw [if_neg (by simp)]
      have hloop := @outcome_foldl dep n (Function.update marks node .active) (fun i => i == node || !dep node i)
        (search dep n fuel) (Function.update marks node .active) (List.range n) (fun i hi m hm => by
          have hbound := List.mem_range.mp hi
          have hreach' : dep node i = true → ∀ j ∈ node :: path, j < n ∧ TransGen (Edge dep n) j i := by
            intro hdep j hj
            have hedge : Edge dep n node i := ⟨⟨hnode, hbound⟩, hdep⟩
            rcases List.mem_cons.mp hj with rfl | hj
            · exact ⟨hnode, .single hedge⟩
            · exact ⟨(hreach j hj).1, (hreach j hj).2.tail hedge⟩
          have hkept : ∀ j, m j = .active ↔ j ∈ node :: path := fun j => (hm.active j).trans (hpath' j)
          refine outcome_look (fun hskip hmark => ?_) fun hskip hmark => ?_
          · have hdep : dep node i = true := by simp at hskip; exact hskip.2
            exact ⟨i, (hreach' hdep i ((hkept i).mp hmark)).2⟩
          · have hdep : dep node i = true := by simp at hskip; exact hskip.2
            refine ih hbound hmark (List.nodup_cons.mpr ⟨hfresh, hnodup⟩) hkept (hreach' hdep) ?_
            rw [List.length_cons]
            omega) (.refl _)
      rcases hloop with ⟨hfound, hcycle⟩ | ⟨hnone, hpassed, -⟩
      · rw [if_pos hfound]
        exact .inl ⟨hfound, hcycle⟩
      · rw [if_neg (by simp [hnone])]
        refine .inr ⟨rfl, ⟨fun i => ?_, fun i hi => ?_, fun i hi => ?_⟩, Function.update_self ..⟩
        · by_cases hi : i = node
          · simp [hi, hnew]
          · have hsame := hpassed.active i
            simp only [Function.update_of_ne hi] at hsame ⊢
            exact hsame
        · by_cases hne : i = node
          · simp [hne]
          · have hsame := hpassed.done i
            simp only [Function.update_of_ne hne] at hsame ⊢
            exact hsame hi
        · by_cases hne : i = node
          · exact .inr (hne ▸ hself)
          · have hsame := hpassed.checked i
            simp only [Function.update_of_ne hne] at hsame hi
            exact hsame hi

theorem outcome_hasCycle : hasCycle dep n = true ∧ Cyclic dep n ∨ hasCycle dep n = false ∧ ∀ i < n, dep i i = false := by
  have hloop := @outcome_foldl dep n (fun _ => .unvisited) (fun _ => false) (search dep n (n + 1)) (fun _ => .unvisited)
    (List.range n) (fun i hi m hm => by
      have hnone : ∀ j, m j ≠ .active := fun j hj => by cases (hm.active j).mp hj
      refine outcome_look (fun _ hmark => absurd hmark (hnone i)) fun _ hmark => ?_
      exact outcome_search (List.mem_range.mp hi) hmark List.nodup_nil (fun j => by simp [hnone j]) (by simp) (by simp)) (.refl _)
  rcases hloop with hcycle | ⟨hnone, hpassed, hdone⟩
  · exact .inl hcycle
  · refine .inr ⟨hnone, fun i hi => (hpassed.checked i (hdone i (List.mem_range.mpr hi) rfl)).resolve_left ?_⟩
    intro h
    cases h

/-! ### The queue -/

theorem foldl_notify (node : Nat) (l : List Nat) (hl : l.Nodup) (degree : Nat → Nat) (queue : List Nat) :
    l.foldl (notify dep node) (degree, queue) =
      (fun i => if i ∈ l ∧ i ≠ node ∧ dep i node = true then degree i - 1 else degree i,
        queue ++ l.filter fun i => i != node && dep i node && decide (degree i - 1 = 0)) := by
  induction l generalizing degree queue with
  | nil => simp
  | cons a l ih =>
    obtain ⟨ha, hl⟩ := List.nodup_cons.mp hl
    have hfilter (f g : Nat → Nat) (h : ∀ i ∈ l, f i = g i) :
        (l.filter fun i => i != node && dep i node && decide (f i - 1 = 0)) =
          l.filter fun i => i != node && dep i node && decide (g i - 1 = 0) :=
      List.filter_congr fun i hi => by rw [h i hi]
    rw [List.foldl_cons]
    by_cases hc : (a != node && dep a node) = true
    · have hne : ∀ i ∈ l, i ≠ a := fun i hi h => ha (h ▸ hi)
      simp only [notify, hc, if_true]
      rw [ih hl]
      have hkeep : ∀ i ∈ l, Function.update degree a (degree a - 1) i = degree i := fun i hi =>
        Function.update_of_ne (hne i hi) _ _
      refine Prod.ext ?_ ?_
      · funext i
        by_cases hi : i = a
        · subst hi
          simp only [Bool.and_eq_true, bne_iff_ne, ne_eq] at hc
          simp [ha, hc]
        · simp [hi]
      · simp only [List.filter_cons, hc, Bool.true_and]
        rw [hfilter _ _ hkeep]
        by_cases hz : degree a - 1 = 0
        · simp [hz]
        · simp [hz]
    · have hn : notify dep node (degree, queue) a = (degree, queue) := by simp only [notify, hc]; rfl
      rw [hn, ih hl]
      refine Prod.ext ?_ ?_
      · funext i
        by_cases hi : i = a
        · subst hi
          have hc' : ¬ (i ≠ node ∧ dep i node = true) := by simpa using hc
          simp [ha, hc']
        · simp [hi]
      · simp [hc]

variable {degree : Nat → Nat} {queue order : List Nat}

theorem Inv.start (dep : Nat → Nat → Bool) (n : Nat) : Inv dep n (fun i => (waits dep n [] i).length)
    ((List.range n).filter fun i => (waits dep n [] i).length = 0) [] where
  nodup := List.nodup_range.filter _
  bound := by
    intro i hi
    simp only [List.nil_append, List.mem_filter, List.mem_range] at hi
    exact hi.1
  degree_eq _ _ := rfl
  mem_iff i hi := by simp [hi]
  ordered := List.Pairwise.nil

/-- One node more among the done ones is one node less to wait for. -/
theorem length_waits_append {node i : Nat} (hnode : node < n) (hnew : node ∉ order) :
    (waits dep n (order ++ [node]) i).length =
      if i ≠ node ∧ dep i node = true then (waits dep n order i).length - 1 else (waits dep n order i).length := by
  have herase : waits dep n (order ++ [node]) i = (waits dep n order i).filter (· != node) := by
    rw [waits, waits, List.filter_filter]
    refine List.filter_congr fun j _ => ?_
    by_cases hj : j = node <;> simp [hj]
  have hdup : (waits dep n order i).Nodup := List.nodup_range.filter _
  rw [herase, ← List.Nodup.erase_eq_filter hdup, List.length_erase]
  have hmem : node ∈ waits dep n order i ↔ i ≠ node ∧ dep i node = true := by
    simp [waits, hnode, hnew]
  simp only [hmem]

theorem Inv.turn {node : Nat} (h : Inv dep n degree (node :: queue) order) :
    Inv dep n ((List.range n).foldl (notify dep node) (degree, queue)).1
      ((List.range n).foldl (notify dep node) (degree, queue)).2 (order ++ [node]) := by
  have hnode : node < n := h.bound node (by simp)
  have hnew : node ∉ order := fun hm => (List.nodup_append.mp h.nodup).2.2 node hm node (by simp) rfl
  rw [foldl_notify node _ List.nodup_range]
  -- a node that waits for this one is in neither list
  have hwaiting : ∀ i < n, i ≠ node → dep i node = true → i ∉ order ++ node :: queue := by
    intro i hi hne hdep hmem
    have hzero := (h.mem_iff i hi).mp hmem
    rw [h.degree_eq i hi, List.length_eq_zero_iff] at hzero
    have : node ∈ waits dep n order i := by simp [waits, hnode, hnew, hne, hdep]
    simp [hzero] at this
  have hsplit : order ++ [node] ++ queue = order ++ node :: queue := by simp
  refine ⟨?_, ?_, ?_, ?_, ?_⟩
  · rw [← List.append_assoc, hsplit, List.nodup_append]
    refine ⟨h.nodup, List.nodup_range.filter _, ?_⟩
    rintro a ha b hb rfl
    simp only [List.mem_filter, List.mem_range, Bool.and_eq_true, bne_iff_ne, ne_eq] at hb
    exact hwaiting a hb.1 hb.2.1.1 hb.2.1.2 ha
  · intro i hi
    rw [← List.append_assoc, hsplit, List.mem_append] at hi
    rcases hi with hi | hi
    · exact h.bound i hi
    · simp only [List.mem_filter, List.mem_range] at hi
      exact hi.1
  · intro i hi
    rw [length_waits_append hnode hnew, ← h.degree_eq i hi]
    simp [hi]
  · intro i hi
    rw [← List.append_assoc, hsplit, List.mem_append, h.mem_iff i hi]
    simp only [List.mem_filter, List.mem_range, hi, true_and, Bool.and_eq_true, bne_iff_ne, ne_eq, decide_eq_true_eq]
    by_cases hc : i ≠ node ∧ dep i node = true
    · have hpos : degree i ≠ 0 := fun hz => hwaiting i hi hc.1 hc.2 ((h.mem_iff i hi).mpr hz)
      simp [hc, hpos]
    · simp only [hc]
      tauto
  · refine List.pairwise_append.mpr ⟨h.ordered, List.pairwise_singleton _ _, ?_⟩
    intro a ha b hb
    obtain rfl := List.mem_singleton.mp hb
    -- `a` left the queue because it waited for nothing more
    by_contra hdep
    have hne : a ≠ b := fun hab => hnew (hab ▸ ha)
    exact hwaiting a (h.bound a (List.mem_append_left _ ha)) hne (by simpa using hdep) (List.mem_append_left _ ha)

theorem Inv.loop (h : Inv dep n degree queue order) (fuel : Nat) :
    ∃ degree' queue', Inv dep n degree' queue' (loop dep n fuel degree queue order) ∧
      (queue' = [] ∨ fuel + order.length ≤ (loop dep n fuel degree queue order).length) := by
  induction fuel generalizing degree queue order with
  | zero => exact ⟨degree, queue, h, .inr (by rw [Nat.zero_add]; exact Nat.le_refl _)⟩
  | succ fuel ih =>
    cases queue with
    | nil => exact ⟨degree, [], h, .inl rfl⟩
    | cons node queue =>
      obtain ⟨degree', queue', hinv, hend⟩ := ih h.turn
      refine ⟨degree', queue', hinv, hend.imp_right fun hlen => ?_⟩
      rw [List.length_append, List.length_singleton] at hlen
      exact (by omega : _ ≤ _).trans hlen

/-- When the queue is empty, every node that is left waits for another one that is left. -/
theorem Inv.exists_edge (h : Inv dep n degree [] order) {i : Nat} (hi : i < n) (hleft : i ∉ order) :
    ∃ j, j ∉ order ∧ Edge dep n i j := by
  have hdegree : degree i ≠ 0 := fun hzero => hleft (by simpa using (h.mem_iff i hi).mpr hzero)
  rw [h.degree_eq i hi] at hdegree
  obtain ⟨j, hj⟩ := List.exists_mem_of_length_pos (Nat.pos_of_ne_zero hdegree)
  simp only [waits, List.mem_filter, List.mem_range, Bool.and_eq_true, Bool.not_eq_true', List.contains_eq_mem,
    decide_eq_false_iff_not] at hj
  exact ⟨j, hj.2.2, ⟨hi, hj.1⟩, hj.2.1.2⟩

theorem mem_of_acyclic (hacyclic : ¬ Cyclic dep n) (h : Inv dep n degree [] order) {i : Nat} (hi : i < n) : i ∈ order := by
  by_contra hleft
  have htrans : IsTrans (Fin n) (fun b a => TransGen (Edge dep n) a b) := ⟨fun _ _ _ hab hbc => hbc.trans hab⟩
  have hirrefl : Std.Irrefl (fun b a : Fin n => TransGen (Edge dep n) a b) := ⟨fun a ha => hacyclic ⟨a, ha⟩⟩
  have hwf := Finite.wellFounded_of_trans_of_irrefl (fun b a : Fin n => TransGen (Edge dep n) a b)
  obtain ⟨last, hlast, hmin⟩ := hwf.has_min {a | a.val ∉ order} ⟨⟨i, hi⟩, hleft⟩
  obtain ⟨j, hj, hedge⟩ := h.exists_edge last.isLt hlast
  exact hmin ⟨j, hedge.1.2⟩ hj (.single hedge)

/-! ### The sort -/

theorem queued_spec (hself : ∀ i < n, dep i i = false) :
    (queued dep n).length ≠ n ∧ Cyclic dep n ∨ (queued dep n).length = n ∧ Ordered dep n (queued dep n) := by
  obtain ⟨degree, queue, hinv, hend⟩ := (@Inv.start dep n).loop n
  have hnodup : (queued dep n).Nodup := (List.nodup_append.mp hinv.nodup).1
  have hbound : ∀ i ∈ queued dep n, i < n := fun i hi => hinv.bound i (List.mem_append_left _ hi)
  have hlen := length_le hnodup hbound
  by_cases hall : (queued dep n).length = n
  · have hperm : (queued dep n).Perm (List.range n) :=
      (List.subperm_of_subset hnodup fun i hi => List.mem_range.mpr (hbound i hi)).perm_of_length_le (by simp [hall])
    refine .inr ⟨hall, hperm, fun before i after horder j hedge => ?_⟩
    have hj : j ∈ before ++ i :: after := horder ▸ hperm.mem_iff.mpr (List.mem_range.mpr hedge.1.2)
    have hne : j ≠ i := by
      rintro rfl
      exact Bool.false_ne_true ((hself j hedge.1.1).symm.trans hedge.2)
    rcases List.mem_append.mp hj with hj | hj
    · exact hj
    · have hpair : (before ++ i :: after).Pairwise fun a b => dep a b = false := horder ▸ hinv.ordered
      have hlater := (List.pairwise_cons.mp (List.pairwise_append.mp hpair).2.1).1 j ((List.mem_cons.mp hj).resolve_left hne)
      exact absurd (hlater.symm.trans hedge.2) Bool.false_ne_true
  · refine .inl ⟨hall, ?_⟩
    by_contra hacyclic
    rcases hend with rfl | hfull
    · have hsub : (List.range n).Subperm (queued dep n) :=
        List.subperm_of_subset List.nodup_range fun i hi => mem_of_acyclic hacyclic hinv (List.mem_range.mp hi)
      have := hsub.length_le
      rw [List.length_range] at this
      omega
    · have : n + [].length ≤ (queued dep n).length := hfull
      rw [List.length_nil] at this
      omega

theorem Ordered.acyclic {order : List Nat} (h : Ordered dep n order) : ¬ Cyclic dep n := by
  rintro ⟨i, hcycle⟩
  have hbefore : ∀ {i j}, TransGen (Edge dep n) i j → ∀ before after, order = before ++ i :: after → j ∈ before := by
    intro i j hpath
    induction hpath using TransGen.head_induction_on with
    | single hedge => exact fun before after heq => h.2 before _ after heq _ hedge
    | head hedge _ ih =>
      intro before after heq
      obtain ⟨front, back, rfl⟩ := List.append_of_mem (h.2 before _ after heq _ hedge)
      exact List.mem_append_left _ (ih front (back ++ _ :: after) (by rw [heq, List.append_assoc]; rfl))
  obtain ⟨_, ⟨⟨hi, -⟩, -⟩, -⟩ := TransGen.head'_iff.mp hcycle
  obtain ⟨before, after, horder⟩ := List.append_of_mem (h.1.mem_iff.mpr (List.mem_range.mpr hi))
  have hnodup : (before ++ i :: after).Nodup := horder ▸ h.1.nodup_iff.mpr List.nodup_range
  exact (List.nodup_append.mp hnodup).2.2 i (hbefore hcycle before after horder) i List.mem_cons_self rfl

/-- The sort fails exactly on a cycle. -/
theorem sort_spec : sort dep n = none ∧ Cyclic dep n ∨
    ∃ order, sort dep n = some order ∧ Ordered dep n order ∧ ¬ Cyclic dep n := by
  unfold sort
  by_cases hn : n = 0
  · subst hn
    have hordered : Ordered dep 0 [] := ⟨.nil, fun before i after h => by simp at h⟩
    exact .inr ⟨[], rfl, hordered, hordered.acyclic⟩
  rw [if_neg hn]
  rcases outcome_hasCycle with ⟨hfound, hcycle⟩ | ⟨hnone, hself⟩
  · rw [if_pos hfound]
    exact .inl ⟨rfl, hcycle⟩
  rw [if_neg (by simp [hnone])]
  rcases queued_spec hself with ⟨hshort, hcycle⟩ | ⟨hfull, hordered⟩
  · exact .inl ⟨if_pos hshort, hcycle⟩
  · exact .inr ⟨queued dep n, if_neg (not_not.mpr hfull), hordered, hordered.acyclic⟩

end TopoSort
