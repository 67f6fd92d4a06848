import Cxpr.EvalSnapshot.Occurrences
import Cxpr.EvalSnapshot.Visit

/-! When a snapshot agrees with evaluation: each subexpression has one node, with the value that it evaluates to. -/

namespace Cxpr.EvalSnapshot
open Ast
variable {D : Type}

/-- A snapshot agrees with evaluation, where `value` is what each expression evaluates to. -/
structure Agrees (value : Ast D → Option (Value D)) (ast : Ast D) (s : Snapshot D) : Prop where
  result : s.result = value ast
  nodes : s.nodes.filterMap occurrence = walk value true ast true
  active : ∀ node ∈ s.nodes, ∀ a, occurrence node = some (a, true) →
    node.value = value a ∧ (node.state = .error ↔ value a = none)
  skipped : ∀ node ∈ s.nodes, ∀ a, occurrence node = some (a, false) → node.state = .skipped
  root : ∃ node, s.nodes[0]? = some node ∧ node.parent = none
  parents : ∀ i node, s.nodes[i + 1]? = some node → ∃ p ≤ i, node.parent = some p

def Fieldless : Ast D → Prop
  | .record _ values => values = []
  | _ => True

def NoFields (as : List (Ast D)) : Prop := ∀ a ∈ as, Fieldless a

theorem noFields_append {as bs : List (Ast D)} : NoFields (as ++ bs) ↔ NoFields as ∧ NoFields bs := List.forall_mem_append

theorem noFields_cons {a : Ast D} {as : List (Ast D)} : NoFields (a :: as) ↔ Fieldless a ∧ NoFields as :=
  List.forall_mem_cons

/-! ### Where a child's value is the value of the expression -/

section
variable (value : Ast D → Option (Value D)) (accepted : Ast D → Prop)

mutual

/-- What evaluation reaches is accepted where the left operand or the condition decides, and the branch that is taken has a
    value. -/
def Faithful : Ast D → Prop
  | .binary op l r =>
    Faithful l ∧
      match leftDecides op (value l) with
      | some _ => accepted (.binary op l r)
      | none => Faithful r
  | .ternary c t e =>
    Faithful c ∧
      match chosenBranch (value c) with
      | some true => accepted (.ternary c t e) ∧ (value t).isSome ∧ Faithful t
      | some false => accepted (.ternary c t e) ∧ (value e).isSome ∧ Faithful e
      | none => True
  | .unary _ a => Faithful a
  | .index target i => Faithful target ∧ Faithful i
  | .array es => FaithfulAll es
  | .fieldOf base _ => Faithful base
  | .call _ args _ => FaithfulAll args
  | .producerAccess _ args _ _ => FaithfulAll args
  | .record _ _ | .fieldAccess _ _ | .chainAccess _ | .number _ | .int64 _ | .bool _ | .string _ | .identifier _ | .param _ =>
    True

def FaithfulAll : List (Ast D) → Prop
  | [] => True
  | a :: as => Faithful a ∧ FaithfulAll as

end

structure Follows (root : Ast D) : Prop where
  refused : ∀ a ∈ subexprs root, ¬accepted a → value a = none
  left : ∀ op l r, .binary op l r ∈ subexprs root → accepted (.binary op l r) →
    ∀ decided, leftDecides op (value l) = some decided → value (.binary op l r) = some (.bool decided)
  branch : ∀ c t e, .ternary c t e ∈ subexprs root → accepted (.ternary c t e) →
    ∀ chosen, chosenBranch (value c) = some chosen → value (.ternary c t e) = value (if chosen then t else e)

end

section
variable {out : Answers D} {accepted : Ast D → Prop} {root : Ast D}

def Shows (out : Answers D) (a : Ast D) : Prop :=
  shown out a = out.ast a ∧ (out.ast a = none → stateWithout out a = .error)

def ShowsAll (out : Answers D) (nodes : List (Ast D × Bool)) : Prop := ∀ x ∈ nodes, x.2 = true → Shows out x.1

variable {xs : List (Ast D × Bool)}

theorem ShowsAll.append {ys : List (Ast D × Bool)} (h : ShowsAll out (xs ++ ys)) : ShowsAll out xs ∧ ShowsAll out ys :=
  ⟨fun x hx => h x (List.mem_append_left _ hx), fun x hx => h x (List.mem_append_right _ hx)⟩

theorem showsAll_append {ys : List (Ast D × Bool)} (hxs : ShowsAll out xs) (hys : ShowsAll out ys) :
    ShowsAll out (xs ++ ys) := by
  intro x hx
  rcases List.mem_append.mp hx with hx | hx
  · exact hxs x hx
  · exact hys x hx

theorem showsAll_cons {a : Ast D} (ha : Shows out a) (hxs : ShowsAll out xs) :
    ShowsAll out ((a, true) :: xs) := by
  intro x hx
  rcases List.mem_cons.mp hx with rfl | hx
  · exact fun _ => ha
  · exact hxs x hx

theorem showsAll_inactive (a : Ast D) : ShowsAll out (walk (shown out) false a false) := by
  intro x hx hactive
  rw [walk_inactive _ _ a x hx] at hactive
  cases hactive

theorem shows_ternary {c t e : Ast D} {chosen : Bool} (hc : shown out c = out.ast c)
    (hchosen : chosenBranch (out.ast c) = some chosen)
    (hvalue : out.ast (.ternary c t e) = out.ast (if chosen then t else e))
    (hsome : (out.ast (if chosen then t else e)).isSome)
    (hbranch : shown out (if chosen then t else e) = out.ast (if chosen then t else e)) : Shows out (.ternary c t e) := by
  refine ⟨?_, fun hnone => ?_⟩
  · rw [hvalue, ← hbranch, shown, hc, hchosen]
    cases chosen <;> rfl
  · rw [← hvalue, hnone] at hsome
    cases hsome

mutual

theorem faithful_shows (hfollows : Follows out.ast accepted root) : ∀ a : Ast D, (∀ x ∈ subexprs a, x ∈ subexprs root) →
    Faithful out.ast accepted a → ShowsAll out (walk (shown out) false a true)
  | .binary op l r, hsub, h => by
    rw [Faithful] at h
    obtain ⟨hleft, hrest⟩ := h
    have hleft := faithful_shows hfollows l (fun x hx => hsub x (by simp [subexprs, hx])) hleft
    have hl : shown out l = out.ast l := (hleft _ (mem_walk_self _ _ l true) rfl).1
    rw [walk, hl]
    cases hdecides : leftDecides op (out.ast l) with
    | some decided =>
      rw [hdecides] at hrest
      have hvalue := hfollows.left op l r (hsub _ (mem_subexprs_self _)) hrest decided hdecides
      refine showsAll_cons ⟨?_, fun hnone => ?_⟩ (showsAll_append hleft (showsAll_inactive r))
      · rw [shown, hl, hdecides, hvalue]
      · rw [hvalue] at hnone
        cases hnone
    | none =>
      rw [hdecides] at hrest
      exact showsAll_cons ⟨by rw [shown, hl, hdecides], fun _ => rfl⟩
        (showsAll_append hleft (faithful_shows hfollows r (fun x hx => hsub x (by simp [subexprs, hx])) hrest))
  | .ternary c t e, hsub, h => by
    rw [Faithful] at h
    obtain ⟨hcond, hrest⟩ := h
    have hcond := faithful_shows hfollows c (fun x hx => hsub x (by simp [subexprs, hx])) hcond
    have hc : shown out c = out.ast c := (hcond _ (mem_walk_self _ _ c true) rfl).1
    have hself := hsub _ (mem_subexprs_self _)
    rw [walk, hc]
    cases hchosen : chosenBranch (out.ast c) with
    | some chosen =>
      rw [hchosen] at hrest
      cases chosen with
      | true =>
        obtain ⟨haccepted, hsome, hbranch⟩ := hrest
        have hbranch := faithful_shows hfollows t (fun x hx => hsub x (by simp [subexprs, hx])) hbranch
        refine showsAll_cons (shows_ternary hc hchosen (hfollows.branch c t e hself haccepted _ hchosen) hsome
          (hbranch _ (mem_walk_self _ _ t true) rfl).1) ?_
        exact showsAll_append (showsAll_append hcond hbranch) (showsAll_inactive e)
      | false =>
        obtain ⟨haccepted, hsome, hbranch⟩ := hrest
        have hbranch := faithful_shows hfollows e (fun x hx => hsub x (by simp [subexprs, hx])) hbranch
        refine showsAll_cons (shows_ternary hc hchosen (hfollows.branch c t e hself haccepted _ hchosen) hsome
          (hbranch _ (mem_walk_self _ _ e true) rfl).1) ?_
        exact showsAll_append (showsAll_append hcond (showsAll_inactive t)) hbranch
    | none =>
      exact showsAll_cons ⟨by rw [shown, hc, hchosen], fun _ => by rw [stateWithout, hc, hchosen]⟩
        (showsAll_append (showsAll_append hcond (showsAll_inactive t)) (showsAll_inactive e))
  | .unary op a, hsub, h => by
    rw [Faithful] at h
    exact showsAll_cons ⟨rfl, fun _ => rfl⟩ (faithful_shows hfollows a (fun x hx => hsub x (by simp [subexprs, hx])) h)
  | .index target i, hsub, h => by
    rw [Faithful] at h
    exact showsAll_cons ⟨rfl, fun _ => rfl⟩
      (showsAll_append (faithful_shows hfollows target (fun x hx => hsub x (by simp [subexprs, hx])) h.1)
        (faithful_shows hfollows i (fun x hx => hsub x (by simp [subexprs, hx])) h.2))
  | .array es, hsub, h => by
    rw [Faithful] at h
    exact showsAll_cons ⟨rfl, fun _ => rfl⟩ (faithfulAll_shows hfollows es (fun x hx => hsub x (by simp [subexprs, hx])) h)
  | .fieldOf base field, hsub, h => by
    rw [Faithful] at h
    exact showsAll_cons ⟨rfl, fun _ => rfl⟩ (faithful_shows hfollows base (fun x hx => hsub x (by simp [subexprs, hx])) h)
  | .call name args argNames, hsub, h => by
    rw [Faithful] at h
    exact showsAll_cons ⟨rfl, fun _ => rfl⟩ (faithfulAll_shows hfollows args (fun x hx => hsub x (by simp [subexprs, hx])) h)
  | .producerAccess name args argNames field, hsub, h => by
    rw [Faithful] at h
    exact showsAll_cons ⟨rfl, fun _ => rfl⟩ (faithfulAll_shows hfollows args (fun x hx => hsub x (by simp [subexprs, hx])) h)
  | .record _ _, _, _ | .fieldAccess _ _, _, _ | .chainAccess _, _, _ | .number _, _, _ | .int64 _, _, _ | .bool _, _, _
  | .string _, _, _ | .identifier _, _, _ | .param _, _, _ =>
    showsAll_cons ⟨rfl, fun _ => rfl⟩ (by simp [ShowsAll])

theorem faithfulAll_shows (hfollows : Follows out.ast accepted root) : ∀ as : List (Ast D),
    (∀ x ∈ subexprsAll as, x ∈ subexprs root) → FaithfulAll out.ast accepted as →
      ShowsAll out (walkAll (shown out) false as true)
  | [], _, _ => by simp [ShowsAll, walkAll]
  | a :: as, hsub, h => by
    rw [FaithfulAll] at h
    exact showsAll_append (faithful_shows hfollows a (fun x hx => hsub x (by simp [subexprsAll, hx])) h.1)
      (faithfulAll_shows hfollows as (fun x hx => hsub x (by simp [subexprsAll, hx])) h.2)

end

theorem ShowsAll.cons {a : Ast D} {xs : List (Ast D × Bool)} (h : ShowsAll out ((a, true) :: xs)) :
    Shows out a ∧ ShowsAll out xs :=
  ⟨h _ (List.mem_cons_self ..) rfl, fun x hx => h x (List.mem_cons_of_mem _ hx)⟩

theorem Shows.ternary (hfollows : Follows out.ast accepted root) {c t e : Ast D} (hself : .ternary c t e ∈ subexprs root)
    (h : Shows out (.ternary c t e)) {chosen : Bool} (hc : shown out c = out.ast c)
    (hchosen : chosenBranch (out.ast c) = some chosen) :
    accepted (.ternary c t e) ∧ (out.ast (if chosen then t else e)).isSome := by
  have hsome : out.ast (.ternary c t e) ≠ none := by
    intro hnone
    have hstate := h.2 hnone
    rw [stateWithout, hc, hchosen] at hstate
    cases hstate
  have haccepted : accepted (.ternary c t e) := by
    by_contra hrefused
    exact hsome (hfollows.refused _ hself hrefused)
  refine ⟨haccepted, ?_⟩
  rw [← hfollows.branch c t e hself haccepted _ hchosen]
  exact Option.isSome_iff_ne_none.mpr hsome

mutual

theorem shows_faithful (hfollows : Follows out.ast accepted root) : ∀ a : Ast D, (∀ x ∈ subexprs a, x ∈ subexprs root) →
    ShowsAll out (walk (shown out) false a true) → Faithful out.ast accepted a
  | .binary op l r, hsub, h => by
    rw [walk] at h
    obtain ⟨hself, hparts⟩ := h.cons
    obtain ⟨hleft, hright⟩ := hparts.append
    have hl : shown out l = out.ast l := (hleft _ (mem_walk_self _ _ l true) rfl).1
    rw [Faithful]
    refine ⟨shows_faithful hfollows l (fun x hx => hsub x (by simp [subexprs, hx])) hleft, ?_⟩
    cases hdecides : leftDecides op (out.ast l) with
    | some decided =>
      by_contra hrefused
      have hvalue := hself.1
      rw [shown, hl, hdecides, hfollows.refused _ (hsub _ (mem_subexprs_self _)) hrefused] at hvalue
      cases hvalue
    | none =>
      rw [hl, hdecides] at hright
      exact shows_faithful hfollows r (fun x hx => hsub x (by simp [subexprs, hx])) hright
  | .ternary c t e, hsub, h => by
    rw [walk] at h
    obtain ⟨hself, hparts⟩ := h.cons
    obtain ⟨hparts, hsecond⟩ := hparts.append
    obtain ⟨hcond, hfirst⟩ := hparts.append
    have hc : shown out c = out.ast c := (hcond _ (mem_walk_self _ _ c true) rfl).1
    rw [Faithful]
    refine ⟨shows_faithful hfollows c (fun x hx => hsub x (by simp [subexprs, hx])) hcond, ?_⟩
    rw [hc] at hfirst hsecond
    cases hchosen : chosenBranch (out.ast c) with
    | some chosen =>
      rw [hchosen] at hfirst hsecond
      obtain ⟨haccepted, hsome⟩ := hself.ternary hfollows (hsub _ (mem_subexprs_self _)) hc hchosen
      cases chosen with
      | true => exact ⟨haccepted, hsome, shows_faithful hfollows t (fun x hx => hsub x (by simp [subexprs, hx])) hfirst⟩
      | false => exact ⟨haccepted, hsome, shows_faithful hfollows e (fun x hx => hsub x (by simp [subexprs, hx])) hsecond⟩
    | none => trivial
  | .unary op a, hsub, h => by
    rw [Faithful]
    exact shows_faithful hfollows a (fun x hx => hsub x (by simp [subexprs, hx])) h.cons.2
  | .index target i, hsub, h => by
    rw [walk] at h
    obtain ⟨htarget, hi⟩ := h.cons.2.append
    rw [Faithful]
    exact ⟨shows_faithful hfollows target (fun x hx => hsub x (by simp [subexprs, hx])) htarget,
      shows_faithful hfollows i (fun x hx => hsub x (by simp [subexprs, hx])) hi⟩
  | .array es, hsub, h => by
    rw [Faithful]
    exact shows_faithfulAll hfollows es (fun x hx => hsub x (by simp [subexprs, hx])) h.cons.2
  | .fieldOf base field, hsub, h => by
    rw [Faithful]
    exact shows_faithful hfollows base (fun x hx => hsub x (by simp [subexprs, hx])) h.cons.2
  | .call name args argNames, hsub, h => by
    rw [Faithful]
    exact shows_faithfulAll hfollows args (fun x hx => hsub x (by simp [subexprs, hx])) h.cons.2
  | .producerAccess name args argNames field, hsub, h => by
    rw [Faithful]
    exact shows_faithfulAll hfollows args (fun x hx => hsub x (by simp [subexprs, hx])) h.cons.2
  | .record _ _, _, _ | .fieldAccess _ _, _, _ | .chainAccess _, _, _ | .number _, _, _ | .int64 _, _, _ | .bool _, _, _
  | .string _, _, _ | .identifier _, _, _ | .param _, _, _ => trivial

theorem shows_faithfulAll (hfollows : Follows out.ast accepted root) : ∀ as : List (Ast D),
    (∀ x ∈ subexprsAll as, x ∈ subexprs root) → ShowsAll out (walkAll (shown out) false as true) →
      FaithfulAll out.ast accepted as
  | [], _, _ => trivial
  | a :: as, hsub, h => by
    rw [walkAll] at h
    rw [FaithfulAll]
    exact ⟨shows_faithful hfollows a (fun x hx => hsub x (by simp [subexprsAll, hx])) h.append.1,
      shows_faithfulAll hfollows as (fun x hx => hsub x (by simp [subexprsAll, hx])) h.append.2⟩

end

variable (value value' : Ast D → Option (Value D)) (fields : Bool)

mutual

theorem walk_noFields : ∀ (a : Ast D) (active : Bool), NoFields (subexprs a) → walk value false a active = walk value true a active
  | .binary op l r, active, h => by
    rw [subexprs, noFields_cons, noFields_append] at h
    rw [walk, walk, walk_noFields l _ h.2.1, walk_noFields r _ h.2.2]
  | .ternary c t e, active, h => by
    rw [subexprs, noFields_cons, noFields_append, noFields_append] at h
    rw [walk, walk, walk_noFields c _ h.2.1.1, walk_noFields t _ h.2.1.2, walk_noFields e _ h.2.2]
  | .unary op a, active, h => by
    rw [subexprs, noFields_cons] at h
    rw [walk, walk, walk_noFields a _ h.2]
  | .index target i, active, h => by
    rw [subexprs, noFields_cons, noFields_append] at h
    rw [walk, walk, walk_noFields target _ h.2.1, walk_noFields i _ h.2.2]
  | .array es, active, h => by
    rw [subexprs, noFields_cons] at h
    rw [walk, walk, walkAll_noFields es _ h.2]
  | .fieldOf base field, active, h => by
    rw [subexprs, noFields_cons] at h
    rw [walk, walk, walk_noFields base _ h.2]
  | .call name args argNames, active, h => by
    rw [subexprs, noFields_cons] at h
    rw [walk, walk, walkAll_noFields args _ h.2]
  | .producerAccess name args argNames field, active, h => by
    rw [subexprs, noFields_cons] at h
    rw [walk, walk, walkAll_noFields args _ h.2]
  | .record names values, active, h => by
    obtain rfl : values = [] := h _ (mem_subexprs_self _)
    rfl
  | .fieldAccess _ _, _, _ | .chainAccess _, _, _ | .number _, _, _ | .int64 _, _, _ | .bool _, _, _ | .string _, _, _
  | .identifier _, _, _ | .param _, _, _ => rfl

theorem walkAll_noFields : ∀ (as : List (Ast D)) (active : Bool), NoFields (subexprsAll as) →
    walkAll value false as active = walkAll value true as active
  | [], _, _ => rfl
  | a :: as, active, h => by
    rw [subexprsAll, noFields_append] at h
    rw [walkAll, walkAll, walk_noFields a _ h.1, walkAll_noFields as _ h.2]

end

mutual

theorem walk_length : ∀ (a : Ast D) (active : Bool), (walk value false a active).length ≤ (subexprs a).length ∧
    ((walk value false a active).length = (subexprs a).length → NoFields (subexprs a))
  | .binary op l r, active => by
    have hl := walk_length l active
    have hr := walk_length r (active && (leftDecides op (value l)).isNone)
    simp only [walk, subexprs, List.length_cons, List.length_append, noFields_cons, noFields_append]
    exact ⟨by omega, fun h => ⟨trivial, hl.2 (by omega), hr.2 (by omega)⟩⟩
  | .ternary c t e, active => by
    have hc := walk_length c active
    have ht := walk_length t (active && chosenBranch (value c) == some true)
    have he := walk_length e (active && chosenBranch (value c) == some false)
    simp only [walk, subexprs, List.length_cons, List.length_append, noFields_cons, noFields_append]
    exact ⟨by omega, fun h => ⟨trivial, ⟨hc.2 (by omega), ht.2 (by omega)⟩, he.2 (by omega)⟩⟩
  | .index target i, active => by
    have htarget := walk_length target active
    have hi := walk_length i active
    simp only [walk, subexprs, List.length_cons, List.length_append, noFields_cons, noFields_append]
    exact ⟨by omega, fun h => ⟨trivial, htarget.2 (by omega), hi.2 (by omega)⟩⟩
  | .unary op a, active => by
    have ha := walk_length a active
    simp only [walk, subexprs, List.length_cons, noFields_cons]
    exact ⟨by omega, fun h => ⟨trivial, ha.2 (by omega)⟩⟩
  | .fieldOf base field, active => by
    have hbase := walk_length base active
    simp only [walk, subexprs, List.length_cons, noFields_cons]
    exact ⟨by omega, fun h => ⟨trivial, hbase.2 (by omega)⟩⟩
  | .array es, active => by
    have hes := walkAll_length es active
    simp only [walk, subexprs, List.length_cons, noFields_cons]
    exact ⟨by omega, fun h => ⟨trivial, hes.2 (by omega)⟩⟩
  | .call name args argNames, active => by
    have hargs := walkAll_length args active
    simp only [walk, subexprs, List.length_cons, noFields_cons]
    exact ⟨by omega, fun h => ⟨trivial, hargs.2 (by omega)⟩⟩
  | .producerAccess name args argNames field, active => by
    have hargs := walkAll_length args active
    simp only [walk, subexprs, List.length_cons, noFields_cons]
    exact ⟨by omega, fun h => ⟨trivial, hargs.2 (by omega)⟩⟩
  | .record names values, active => by
    cases values with
    | nil => exact ⟨Nat.le_refl _, fun _ a ha => by rw [List.mem_singleton.mp ha]; rfl⟩
    | cons a as =>
      have hpos := List.length_pos_of_mem (mem_subexprs_self a)
      simp only [walk, subexprs, subexprsAll, List.length_cons, List.length_append]
      exact ⟨by simp, fun h => by simp [Nat.ne_of_gt hpos] at h⟩
  | .fieldAccess _ _, _ | .chainAccess _, _ | .number _, _ | .int64 _, _ | .bool _, _ | .string _, _ | .identifier _, _
  | .param _, _ => ⟨Nat.le_refl _, fun _ a ha => by rw [List.mem_singleton.mp ha]; trivial⟩

theorem walkAll_length : ∀ (as : List (Ast D)) (active : Bool),
    (walkAll value false as active).length ≤ (subexprsAll as).length ∧
      ((walkAll value false as active).length = (subexprsAll as).length → NoFields (subexprsAll as))
  | [], _ => ⟨Nat.le_refl _, fun _ a ha => by cases ha⟩
  | a :: as, active => by
    have ha := walk_length a active
    have has := walkAll_length as active
    simp only [walkAll, subexprsAll, List.length_append, noFields_append]
    exact ⟨by omega, fun h => ⟨ha.2 (by omega), has.2 (by omega)⟩⟩

end

mutual

theorem walk_false : ∀ a : Ast D, walk value fields a false = walk value' fields a false
  | .binary op l r => by simp [walk, walk_false l, walk_false r]
  | .ternary c t e => by simp [walk, walk_false c, walk_false t, walk_false e]
  | .unary op a => by simp [walk, walk_false a]
  | .index target i => by simp [walk, walk_false target, walk_false i]
  | .array es => by simp [walk, walkAll_false es]
  | .fieldOf base field => by simp [walk, walk_false base]
  | .call name args argNames => by simp [walk, walkAll_false args]
  | .producerAccess name args argNames field => by simp [walk, walkAll_false args]
  | .record names values => by simp [walk, walkAll_false values]
  | .fieldAccess _ _ | .chainAccess _ | .number _ | .int64 _ | .bool _ | .string _ | .identifier _ | .param _ => rfl

theorem walkAll_false : ∀ as : List (Ast D), walkAll value fields as false = walkAll value' fields as false
  | [] => rfl
  | a :: as => by simp [walkAll, walk_false a, walkAll_false as]

end

variable {value value' fields} in
theorem walk_reached (a : Ast D) {reached : Bool} (h : reached = true → walk value fields a true = walk value' fields a true) :
    walk value fields a reached = walk value' fields a reached := by
  cases reached with
  | false => exact walk_false value value' fields a
  | true => exact h rfl

mutual

theorem walk_shown : ∀ a : Ast D, ShowsAll out (walk (shown out) fields a true) →
    walk (shown out) fields a true = walk out.ast fields a true
  | .binary op l r, h => by
    rw [walk] at h
    obtain ⟨hleft, hright⟩ := h.cons.2.append
    have hl : shown out l = out.ast l := (hleft _ (mem_walk_self _ _ l true) rfl).1
    rw [hl] at hright
    rw [walk, walk, hl, walk_shown l hleft]
    rw [walk_reached r fun hreached => walk_shown r (by rwa [hreached] at hright)]
  | .ternary c t e, h => by
    rw [walk] at h
    obtain ⟨hparts, hsecond⟩ := h.cons.2.append
    obtain ⟨hcond, hfirst⟩ := hparts.append
    have hc : shown out c = out.ast c := (hcond _ (mem_walk_self _ _ c true) rfl).1
    rw [hc] at hfirst hsecond
    rw [walk, walk, hc, walk_shown c hcond]
    rw [walk_reached t fun hreached => walk_shown t (by rwa [hreached] at hfirst),
      walk_reached e fun hreached => walk_shown e (by rwa [hreached] at hsecond)]
  | .unary op a, h => by
    rw [walk, walk, walk_shown a h.cons.2]
  | .index target i, h => by
    rw [walk] at h
    rw [walk, walk, walk_shown target h.cons.2.append.1, walk_shown i h.cons.2.append.2]
  | .array es, h => by
    rw [walk, walk, walkAll_shown es h.cons.2]
  | .fieldOf base field, h => by
    rw [walk, walk, walk_shown base h.cons.2]
  | .call name args argNames, h => by
    rw [walk, walk, walkAll_shown args h.cons.2]
  | .producerAccess name args argNames field, h => by
    rw [walk, walk, walkAll_shown args h.cons.2]
  | .record names values, h => by
    rw [walk] at h ⊢
    rw [walk]
    split at h
    · rename_i hfields
      rw [if_pos hfields, if_pos hfields, walkAll_shown values h.cons.2]
    · rename_i hfields
      rw [if_neg hfields, if_neg hfields]
  | .fieldAccess _ _, _ | .chainAccess _, _ | .number _, _ | .int64 _, _ | .bool _, _ | .string _, _ | .identifier _, _
  | .param _, _ => rfl

theorem walkAll_shown : ∀ as : List (Ast D), ShowsAll out (walkAll (shown out) fields as true) →
    walkAll (shown out) fields as true = walkAll out.ast fields as true
  | [], _ => rfl
  | a :: as, h => by
    rw [walkAll] at h
    rw [walkAll, walkAll, walk_shown a h.append.1, walkAll_shown as h.append.2]

end

end

section
variable [Double D] {ev : Evaluation D} {reg : Registry D} {ast : Ast D} {ctx : Context D} {accepted : Ast D → Prop}

omit [Double D] in
theorem stateForValue_ne_error (v : Value D) : stateForValue v ≠ .error := by
  cases v with
  | bool b => cases b <;> simp [stateForValue]
  | _ => simp [stateForValue]

omit [Double D] in
theorem shows_iff_row (out : Answers D) (a : Ast D) (parent : Option Nat) (role : String) :
    Shows out a ↔ (rowOf out a parent role true).value = out.ast a ∧
      ((rowOf out a parent role true).state = .error ↔ out.ast a = none) := by
  show _ ↔ shown out a = out.ast a ∧ (((shown out a).map stateForValue).getD (stateWithout out a) = .error ↔ _)
  unfold Shows
  refine and_congr_right fun hshown => ?_
  rw [hshown]
  cases out.ast a with
  | none => simp
  | some v => simp [stateForValue_ne_error]

theorem build_nodes (hsteady : Steady ev ast ctx) : (build ev reg ast ctx).nodes = rows (ev.on ctx) reg ast none "root" true 0 := by
  have hstart : Leaves ev ast ctx { ctx } [] := ⟨.start, rfl⟩
  exact (visit_leaves reg hsteady ast (fun _ hx => hx) none "root" true hstart).2

theorem agrees_iff (hsteady : Steady ev ast ctx) (hfollows : Follows (ev.on ctx).ast accepted ast) :
    Agrees (ev.on ctx).ast ast (build ev reg ast ctx) ↔
      Faithful (ev.on ctx).ast accepted ast ∧ NoFields (subexprs ast) := by
  have hnodes : (build ev reg ast ctx).nodes = rows (ev.on ctx) reg ast none "root" true 0 := build_nodes hsteady
  have hoccurs : (build ev reg ast ctx).nodes.filterMap occurrence = walk (shown (ev.on ctx)) false ast true := by
    rw [hnodes, occurrence_rows]
  obtain ⟨rest, hrest⟩ := rows_eq_cons (ev.on ctx) reg ast none "root" true 0
  have hplaced : Placed (ev.on ctx) 1 rest := placed_rest ast _ _ _ _ _ hrest
  have hrow : ∀ node ∈ (build ev reg ast ctx).nodes, ∀ a active, occurrence node = some (a, active) →
      ∃ parent role, node = rowOf (ev.on ctx) a parent role active := by
    intro node hnode a active hnodeOccurs
    rw [hnodes, hrest] at hnode
    rcases List.mem_cons.mp hnode with rfl | hnode
    · rw [occurrence_rowOf] at hnodeOccurs
      cases hnodeOccurs
      exact ⟨_, _, rfl⟩
    · obtain ⟨i, hi⟩ := List.mem_iff_getElem?.mp hnode
      exact (hplaced i node hi).2 a active hnodeOccurs
  constructor
  · intro h
    have hshows : ShowsAll (ev.on ctx) (walk (shown (ev.on ctx)) false ast true) := by
      rintro ⟨a, active⟩ hmem rfl
      rw [← hoccurs] at hmem
      obtain ⟨node, hnode, hnodeOccurs⟩ := List.mem_filterMap.mp hmem
      have hagrees := h.active node hnode a hnodeOccurs
      obtain ⟨parent, role, rfl⟩ := hrow node hnode a true hnodeOccurs
      exact (shows_iff_row _ a parent role).mpr hagrees
    refine ⟨shows_faithful hfollows ast (fun _ hx => hx) hshows, (walk_length (shown (ev.on ctx)) ast true).2 ?_⟩
    rw [← hoccurs, h.nodes, ← walk_fst (ev.on ctx).ast ast true, List.length_map]
  · rintro ⟨hfaithful, hfields⟩
    have hshows := faithful_shows hfollows ast (fun _ hx => hx) hfaithful
    refine ⟨?_, ?_, ?_, ?_, ?_, ?_⟩
    · show (build ev reg ast ctx).nodes.head?.bind (·.value) = _
      rw [hnodes, hrest]
      exact (hshows _ (mem_walk_self _ _ ast true) rfl).1
    · have hall : ShowsAll (ev.on ctx) (walk (shown (ev.on ctx)) true ast true) := by
        rwa [← walk_noFields _ ast true hfields]
      rw [hoccurs, walk_noFields _ ast true hfields, walk_shown true ast hall]
    · intro node hnode a hnodeOccurs
      have hmem : (a, true) ∈ walk (shown (ev.on ctx)) false ast true := by
        rw [← hoccurs]
        exact List.mem_filterMap.mpr ⟨node, hnode, hnodeOccurs⟩
      obtain ⟨parent, role, rfl⟩ := hrow node hnode a true hnodeOccurs
      exact (shows_iff_row _ a parent role).mp (hshows _ hmem rfl)
    · intro node hnode a hnodeOccurs
      obtain ⟨parent, role, rfl⟩ := hrow node hnode a false hnodeOccurs
      rfl
    · exact ⟨rowOf (ev.on ctx) ast none "root" true, by rw [hnodes, hrest]; rfl, rfl⟩
    · intro i node hnode
      rw [hnodes, hrest, List.getElem?_cons_succ] at hnode
      obtain ⟨⟨p, hp, hparent⟩, -⟩ := hplaced i node hnode
      exact ⟨p, by omega, hparent⟩

end
end Cxpr.EvalSnapshot
