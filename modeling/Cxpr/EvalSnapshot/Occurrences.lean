import Cxpr.EvalSnapshot.Rows

/-! The subexpressions that the nodes of a visit stand for, and the tree that the nodes form. -/

namespace Cxpr.EvalSnapshot
open Ast
variable {D : Type}

section
variable (value : Ast D → Option (Value D)) (fields : Bool)

mutual

/-- The subexpressions in the order of their nodes, each with whether evaluation reaches it past short-circuits and
    conditionals, where `value` is what they decide on; the fields of records only if `fields` says so. -/
def walk : Ast D → Bool → List (Ast D × Bool)
  | .binary op l r, active =>
    (.binary op l r, active) :: (walk l active ++ walk r (active && (leftDecides op (value l)).isNone))
  | .ternary c t e, active =>
    (.ternary c t e, active) ::
      (walk c active ++ walk t (active && chosenBranch (value c) == some true) ++
        walk e (active && chosenBranch (value c) == some false))
  | .unary op a, active => (.unary op a, active) :: walk a active
  | .index target i, active => (.index target i, active) :: (walk target active ++ walk i active)
  | .array es, active => (.array es, active) :: walkAll es active
  | .fieldOf base field, active => (.fieldOf base field, active) :: walk base active
  | .call name args argNames, active => (.call name args argNames, active) :: walkAll args active
  | .producerAccess name args argNames field, active =>
    (.producerAccess name args argNames field, active) :: walkAll args active
  | .record names values, active => (.record names values, active) :: if fields then walkAll values active else []
  | .fieldAccess object field, active => [(.fieldAccess object field, active)]
  | .chainAccess path, active => [(.chainAccess path, active)]
  | .number v, active => [(.number v, active)]
  | .int64 v, active => [(.int64 v, active)]
  | .bool v, active => [(.bool v, active)]
  | .string v, active => [(.string v, active)]
  | .identifier name, active => [(.identifier name, active)]
  | .param name, active => [(.param name, active)]

def walkAll : List (Ast D) → Bool → List (Ast D × Bool)
  | [], _ => []
  | a :: as, active => walk a active ++ walkAll as active

end

theorem mem_walk_self (a : Ast D) (active : Bool) : (a, active) ∈ walk value fields a active := by
  cases a <;> simp [walk]

mutual

theorem walk_fst : ∀ (a : Ast D) (active : Bool), (walk value true a active).map Prod.fst = subexprs a
  | .binary op l r, active => by simp [walk, subexprs, walk_fst l, walk_fst r]
  | .ternary c t e, active => by simp [walk, subexprs, walk_fst c, walk_fst t, walk_fst e]
  | .unary op a, active => by simp [walk, subexprs, walk_fst a]
  | .index target i, active => by simp [walk, subexprs, walk_fst target, walk_fst i]
  | .array es, active => by simp [walk, subexprs, walkAll_fst es]
  | .fieldOf base field, active => by simp [walk, subexprs, walk_fst base]
  | .call name args argNames, active => by simp [walk, subexprs, walkAll_fst args]
  | .producerAccess name args argNames field, active => by simp [walk, subexprs, walkAll_fst args]
  | .record names values, active => by simp [walk, subexprs, walkAll_fst values]
  | .fieldAccess _ _, _ | .chainAccess _, _ | .number _, _ | .int64 _, _ | .bool _, _ | .string _, _ | .identifier _, _
  | .param _, _ => rfl

theorem walkAll_fst : ∀ (as : List (Ast D)) (active : Bool), (walkAll value true as active).map Prod.fst = subexprsAll as
  | [], _ => rfl
  | a :: as, active => by simp [walkAll, subexprsAll, walk_fst a, walkAll_fst as]

end

mutual

theorem walk_inactive : ∀ (a : Ast D), ∀ x ∈ walk value fields a false, x.2 = false
  | .binary op l r => by
    intro x hx
    rcases List.mem_cons.mp hx with rfl | hx
    · rfl
    rcases List.mem_append.mp hx with hx | hx
    · exact walk_inactive l x hx
    · exact walk_inactive r x hx
  | .ternary c t e => by
    intro x hx
    rcases List.mem_cons.mp hx with rfl | hx
    · rfl
    rcases List.mem_append.mp hx with hx | hx
    · rcases List.mem_append.mp hx with hx | hx
      · exact walk_inactive c x hx
      · exact walk_inactive t x hx
    · exact walk_inactive e x hx
  | .unary op a => by
    intro x hx
    rcases List.mem_cons.mp hx with rfl | hx
    · rfl
    · exact walk_inactive a x hx
  | .index target i => by
    intro x hx
    rcases List.mem_cons.mp hx with rfl | hx
    · rfl
    rcases List.mem_append.mp hx with hx | hx
    · exact walk_inactive target x hx
    · exact walk_inactive i x hx
  | .array es => by
    intro x hx
    rcases List.mem_cons.mp hx with rfl | hx
    · rfl
    · exact walkAll_inactive es x hx
  | .fieldOf base field => by
    intro x hx
    rcases List.mem_cons.mp hx with rfl | hx
    · rfl
    · exact walk_inactive base x hx
  | .call name args argNames => by
    intro x hx
    rcases List.mem_cons.mp hx with rfl | hx
    · rfl
    · exact walkAll_inactive args x hx
  | .producerAccess name args argNames field => by
    intro x hx
    rcases List.mem_cons.mp hx with rfl | hx
    · rfl
    · exact walkAll_inactive args x hx
  | .record names values => by
    intro x hx
    rcases List.mem_cons.mp hx with rfl | hx
    · rfl
    split at hx
    · exact walkAll_inactive values x hx
    · cases hx
  | .fieldAccess _ _ | .chainAccess _ | .number _ | .int64 _ | .bool _ | .string _ | .identifier _ | .param _ => by
    intro x hx
    obtain rfl := List.mem_singleton.mp hx
    rfl

theorem walkAll_inactive : ∀ (as : List (Ast D)), ∀ x ∈ walkAll value fields as false, x.2 = false
  | [] => by simp [walkAll]
  | a :: as => by
    intro x hx
    rcases List.mem_append.mp hx with hx | hx
    · exact walk_inactive a x hx
    · exact walkAll_inactive as x hx

end

end

def occurrence (node : Node D) : Option (Ast D × Bool) :=
  match node.subject with
  | .expr a => some (a, node.active)
  | _ => none

section
variable [Double D] (out : Answers D) (reg : Registry D)

omit [Double D] in
theorem occurrence_rowOf (a : Ast D) (parent : Option Nat) (role : String) (active : Bool) :
    occurrence (rowOf out a parent role active) = some (a, active) := by
  cases active <;> rfl

omit [Double D] in
theorem occurrence_textRow (parent : Nat) (role source : String) (active : Bool) :
    occurrence (textRow (D := D) parent role source active) = none := rfl

omit [Double D] in
theorem occurrence_segmentRows (parent : Nat) (active : Bool) (path : List String) :
    (segmentRows (D := D) parent active path).filterMap occurrence = [] := by
  rw [List.filterMap_eq_nil_iff]
  intro node hnode
  obtain ⟨x, -, rfl⟩ := List.mem_map.mp hnode
  rfl

theorem occurrence_sampleRows (name : String) (args : List (Ast D)) (parent : Nat) :
    (sampleRows out name args parent).filterMap occurrence = [] := by
  unfold sampleRows
  split
  · rw [List.filterMap_eq_nil_iff]
    intro node hnode
    obtain ⟨x, -, rfl⟩ := List.mem_map.mp hnode
    rfl
  · rfl

omit [Double D] in
theorem occurrence_nameRow (name : String) (id : Nat) (active : Bool) :
    (nameRow (D := D) name id active).1.filterMap occurrence = [] := by
  unfold nameRow
  split <;> rfl

mutual

theorem occurrence_rows : ∀ (a : Ast D) (parent : Option Nat) (role : String) (active : Bool) (n : Nat),
    (rows out reg a parent role active n).filterMap occurrence = walk (shown out) false a active
  | .binary op l r, parent, role, active, n => by
    simp [rows, walk, occurrence_rowOf, occurrence_rows l, occurrence_rows r]
  | .ternary c t e, parent, role, active, n => by
    simp [rows, walk, occurrence_rowOf, occurrence_rows c, occurrence_rows t, occurrence_rows e]
  | .unary op a, parent, role, active, n => by simp [rows, walk, occurrence_rowOf, occurrence_rows a]
  | .index target i, parent, role, active, n => by
    simp [rows, walk, occurrence_rowOf, occurrence_rows target, occurrence_rows i]
  | .array es, parent, role, active, n => by simp [rows, walk, occurrence_rowOf, occurrence_rowsAll es]
  | .fieldOf base field, parent, role, active, n => by
    simp [rows, walk, occurrence_rowOf, occurrence_rows base, occurrence_textRow]
  | .fieldAccess object field, parent, role, active, n => by simp [rows, walk, occurrence_rowOf, occurrence_textRow]
  | .chainAccess path, parent, role, active, n => by
    simp [rows, walk, occurrence_rowOf, occurrence_segmentRows]
  | .call name args argNames, parent, role, active, n => by
    have hsamples : ∀ above, (if active = true then sampleRows out name args above else []).filterMap occurrence = [] := by
      intro above
      split
      · exact occurrence_sampleRows out name args above
      · rfl
    simp [rows, walk, occurrence_rowOf, occurrence_nameRow, occurrence_rowsAll args, hsamples]
  | .producerAccess name args argNames field, parent, role, active, n => by
    have hlabel : ∀ above, (if (active && field != "") = true then [textRow (D := D) above "field" field true] else
        []).filterMap occurrence = [] := by
      intro above
      split <;> rfl
    simp only [rows, walk, List.filterMap_cons, occurrence_rowOf, List.filterMap_append, occurrence_nameRow, hlabel,
      occurrence_rowsAll args, List.nil_append]
  | .record _ _, parent, role, active, n | .number _, parent, role, active, n | .int64 _, parent, role, active, n
  | .bool _, parent, role, active, n | .string _, parent, role, active, n | .identifier _, parent, role, active, n
  | .param _, parent, role, active, n => by simp [rows, walk, occurrence_rowOf]

theorem occurrence_rowsAll : ∀ (as : List (Ast D)) (role : Nat → String) (parent : Nat) (active : Bool) (i n : Nat),
    (rowsAll out reg role parent active i as n).filterMap occurrence = walkAll (shown out) false as active
  | [], role, parent, active, i, n => rfl
  | a :: as, role, parent, active, i, n => by
    simp [rowsAll, walkAll, occurrence_rows a, occurrence_rowsAll as]

end

/-- Nodes from the index `n` on: each below an earlier one and, if it stands for a subexpression, the row of it. -/
def Placed (n : Nat) (nodes : List (Node D)) : Prop :=
  ∀ i node, nodes[i]? = some node → (∃ p < n + i, node.parent = some p) ∧
    ∀ a active, occurrence node = some (a, active) → ∃ parent role, node = rowOf out a parent role active

variable {out reg}

omit [Double D] in
theorem Placed.nil (n : Nat) : Placed out n [] := by
  intro i node hnode
  simp at hnode

omit [Double D] in
theorem Placed.append {n : Nat} {nodes more : List (Node D)} (h : Placed out n nodes)
    (hmore : Placed out (n + nodes.length) more) : Placed out n (nodes ++ more) := by
  intro i node hnode
  rcases Nat.lt_or_ge i nodes.length with hi | hi
  · exact h i node (by rwa [List.getElem?_append_left hi] at hnode)
  · obtain ⟨⟨p, hp, hparent⟩, hrow⟩ := hmore (i - nodes.length) node (by rwa [List.getElem?_append_right hi] at hnode)
    exact ⟨⟨p, by omega, hparent⟩, hrow⟩

omit [Double D] in
theorem Placed.texts {n p : Nat} (hp : p < n) {nodes : List (Node D)} (hparent : ∀ node ∈ nodes, node.parent = some p)
    (htexts : nodes.filterMap occurrence = []) : Placed out n nodes := by
  intro i node hnode
  have hmem := List.mem_of_getElem? hnode
  refine ⟨⟨p, by omega, hparent node hmem⟩, fun a active hoccurs => ?_⟩
  rw [List.filterMap_eq_nil_iff.mp htexts node hmem] at hoccurs
  cases hoccurs

omit [Double D] in
theorem Placed.text {n p : Nat} (hp : p < n) (role source : String) (active : Bool) :
    Placed out n [textRow p role source active] :=
  .texts hp (fun node hnode => by rw [List.mem_singleton.mp hnode]; rfl) rfl

omit [Double D] in
theorem Placed.row {n p : Nat} (hp : p < n) (a : Ast D) (role : String) (active : Bool) {rest : List (Node D)}
    (h : Placed out (n + 1) rest) : Placed out n (rowOf out a (some p) role active :: rest) := by
  intro i node hnode
  cases i with
  | zero =>
    obtain rfl : rowOf out a (some p) role active = node := Option.some.inj hnode
    refine ⟨⟨p, hp, by cases active <;> rfl⟩, fun b active' hoccurs => ?_⟩
    rw [occurrence_rowOf] at hoccurs
    cases hoccurs
    exact ⟨_, _, rfl⟩
  | succ i =>
    obtain ⟨⟨q, hq, hparent⟩, hrow⟩ := h i node hnode
    exact ⟨⟨q, by omega, hparent⟩, hrow⟩

omit [Double D] in
theorem placed_segmentRows {n p : Nat} (hp : p < n) (active : Bool) (path : List String) :
    Placed out n (segmentRows p active path) := by
  refine .texts hp (fun node hnode => ?_) (occurrence_segmentRows p active path)
  obtain ⟨x, -, rfl⟩ := List.mem_map.mp hnode
  rfl

theorem placed_sampleRows {n p : Nat} (hp : p < n) (name : String) (args : List (Ast D)) :
    Placed out n (sampleRows out name args p) := by
  refine .texts hp (fun node hnode => ?_) (occurrence_sampleRows out name args p)
  unfold sampleRows at hnode
  split at hnode
  · obtain ⟨x, -, rfl⟩ := List.mem_map.mp hnode
    rfl
  · cases hnode

omit [Double D] in
theorem placed_nameRow (out : Answers D) (name : String) (n : Nat) (active : Bool) :
    Placed out (n + 1) (nameRow name n active).1 ∧
      (nameRow (D := D) name n active).2 < n + 1 + (nameRow (D := D) name n active).1.length := by
  unfold nameRow
  split
  · exact ⟨.text (by omega) "function" name true, by simp⟩
  · exact ⟨.nil _, by simp⟩

def RestPlaced (out : Answers D) (reg : Registry D) (a : Ast D) : Prop :=
  ∀ (parent : Option Nat) (role : String) (active : Bool) (n : Nat) (rest : List (Node D)),
    rows out reg a parent role active n = rowOf out a parent role active :: rest → Placed out (n + 1) rest

theorem RestPlaced.rows {a : Ast D} (h : RestPlaced out reg a) {n p : Nat} (hp : p < n) (role : String) (active : Bool) :
    Placed out n (rows out reg a (some p) role active n) := by
  obtain ⟨rest, hrest⟩ := rows_eq_cons out reg a (some p) role active n
  rw [hrest]
  exact .row hp a role active (h _ _ _ _ _ hrest)

mutual

theorem placed_rest : ∀ a : Ast D, RestPlaced out reg a
  | .binary op l r => by
    intro parent role active n rest h
    obtain rfl := (List.cons.inj h).2
    exact ((placed_rest l).rows (by omega) "left" active).append ((placed_rest r).rows (by omega) "right" _)
  | .ternary c t e => by
    intro parent role active n rest h
    obtain rfl := (List.cons.inj h).2
    refine (((placed_rest c).rows (by omega) "condition" active).append
      ((placed_rest t).rows (by omega) "true" _)).append ?_
    rw [List.length_append, ← Nat.add_assoc]
    exact (placed_rest e).rows (by omega) "false" _
  | .unary op a => by
    intro parent role active n rest h
    obtain rfl := (List.cons.inj h).2
    exact (placed_rest a).rows (by omega) "operand" active
  | .index target i => by
    intro parent role active n rest h
    obtain rfl := (List.cons.inj h).2
    exact ((placed_rest target).rows (by omega) "source" active).append ((placed_rest i).rows (by omega) "index" active)
  | .array es => by
    intro parent role active n rest h
    obtain rfl := (List.cons.inj h).2
    exact placed_rowsAll es _ (by omega) active 0
  | .fieldOf base field => by
    intro parent role active n rest h
    obtain rfl := (List.cons.inj h).2
    exact ((placed_rest base).rows (by omega) "base" active).append (.text (by omega) "field" field active)
  | .fieldAccess object field => by
    intro parent role active n rest h
    obtain rfl := (List.cons.inj h).2
    exact (Placed.text (by omega) "object" object active).append (.text (by omega) "field" field active)
  | .chainAccess path => by
    intro parent role active n rest h
    obtain rfl := (List.cons.inj h).2
    exact placed_segmentRows (by omega) active path
  | .call name args argNames => by
    intro parent role active n rest h
    obtain rfl := (List.cons.inj h).2
    obtain ⟨hname, habove⟩ := placed_nameRow out name n active
    refine (hname.append (placed_rowsAll args _ habove active 0)).append ?_
    split
    · exact placed_sampleRows (Nat.lt_of_lt_of_le habove (by rw [List.length_append]; omega)) name args
    · exact .nil _
  | .producerAccess name args argNames field => by
    intro parent role active n rest h
    obtain rfl := (List.cons.inj h).2
    obtain ⟨hname, habove⟩ := placed_nameRow out name n active
    refine (hname.append ?_).append (placed_rowsAll args _ (Nat.lt_of_lt_of_le habove (by rw [List.length_append]; omega)) active 0)
    split
    · exact .text habove "field" field true
    · exact .nil _
  | .record _ _ | .number _ | .int64 _ | .bool _ | .string _ | .identifier _ | .param _ => by
    intro parent role active n rest h
    obtain rfl := (List.cons.inj h).2
    exact .nil _

theorem placed_rowsAll : ∀ (as : List (Ast D)) (role : Nat → String) {p n : Nat} (_ : p < n) (active : Bool) (i : Nat),
    Placed out n (rowsAll out reg role p active i as n)
  | [], role, p, n, hp, active, i => .nil n
  | a :: as, role, p, n, hp, active, i =>
    ((placed_rest a).rows hp (role i) active).append (placed_rowsAll as role (by omega) active (i + 1))

end

end
end Cxpr.EvalSnapshot
