import Cxpr.EvalSnapshot.Rows

/-! A visit appends the rows of its expression. -/

namespace Cxpr.EvalSnapshot
open Ast
variable {D : Type} [Double D] {ev : Evaluation D} {reg : Registry D} {root : Ast D} {ctx : Context D}

/-! ### Single nodes -/

omit [Double D] in
theorem modify_middle {pre post : List (Node D)} {x : Node D} {n : Nat} (hn : pre.length = n) (f : Node D → Node D) :
    (pre ++ x :: post).modify n f = pre ++ f x :: post := by
  subst hn
  induction pre with
  | nil => rfl
  | cons y pre ih => rw [List.cons_append, List.length_cons, List.modify_succ_cons, ih, List.cons_append]

def openRow (a : Ast D) (parent : Option Nat) (role : String) (active : Bool) : Node D :=
  ⟨parent, role, .expr a, active, none, if active then .unknown else .skipped⟩

def Leaves (ev : Evaluation D) (root : Ast D) (ctx : Context D) (b : Builder D) (nodes : List (Node D)) : Prop :=
  Visited ev root ctx b.ctx ∧ b.nodes = nodes

variable {b : Builder D} {pre post : List (Node D)} {a : Ast D} {parent : Option Nat} {role : String} {active : Bool}

omit [Double D] in
theorem Leaves.addNode (h : Leaves ev root ctx b pre) (a : Ast D) (parent : Option Nat) (role : String) (active : Bool) :
    Leaves ev root ctx (b.addNode (.expr a) parent role active) (pre ++ [openRow a parent role active]) :=
  ⟨h.1, by rw [Builder.addNode, h.2]; rfl⟩

omit [Double D] in
theorem Leaves.addTextChild (h : Leaves ev root ctx b pre) (parent : Nat) (role source : String) (active : Bool) :
    Leaves ev root ctx (b.addTextChild parent role source active) (pre ++ [textRow parent role source active]) :=
  ⟨h.1, by rw [Builder.addTextChild, h.2]; rfl⟩

omit [Double D] in
theorem rowOf_inactive (out : Answers D) (a : Ast D) (parent : Option Nat) (role : String) :
    rowOf out a parent role false = openRow a parent role false := rfl

omit [Double D] in
theorem Leaves.evalNode (hsteady : Steady ev root ctx) (ha : a ∈ subexprs root)
    (h : Leaves ev root ctx b (pre ++ openRow a parent role true :: post)) (hshown : shown (ev.on ctx) a = (ev.on ctx).ast a)
    (hstate : (ev.on ctx).ast a = none → stateWithout (ev.on ctx) a = .error) {n : Nat} (hn : pre.length = n) :
    Leaves ev root ctx (b.evalNode ev a n) (pre ++ rowOf (ev.on ctx) a parent role true :: post) := by
  have hvalue : (ev.ast a b.ctx).1 = (ev.on ctx).ast a := hsteady.ast b.ctx h.1 a ha
  have hctx : Visited ev root ctx (ev.ast a b.ctx).2 := .ast ha h.1
  unfold Builder.evalNode Builder.record
  rcases hresult : ev.ast a b.ctx with ⟨value, c⟩
  rw [hresult] at hvalue hctx
  obtain rfl : value = (ev.on ctx).ast a := hvalue
  cases hout : (ev.on ctx).ast a with
  | none =>
    refine ⟨hctx, ?_⟩
    show b.nodes.modify n _ = _
    rw [h.2, modify_middle hn, rowOf, if_pos rfl, hshown, hout, hstate hout]
    rfl
  | some v =>
    refine ⟨hctx, ?_⟩
    show b.nodes.modify n _ = _
    rw [h.2, modify_middle hn, rowOf, if_pos rfl, hshown, hout]
    rfl

omit [Double D] in
theorem Leaves.finish (hsteady : Steady ev root ctx) (ha : a ∈ subexprs root)
    (h : Leaves ev root ctx b (pre ++ openRow a parent role active :: post))
    (hshown : shown (ev.on ctx) a = (ev.on ctx).ast a) (hstate : stateWithout (ev.on ctx) a = .error) {n : Nat}
    (hn : pre.length = n) :
    Leaves ev root ctx (visit.finish ev a n active b) (pre ++ rowOf (ev.on ctx) a parent role active :: post) := by
  unfold visit.finish
  cases active with
  | false => exact h
  | true => exact h.evalNode hsteady ha hshown (fun _ => hstate) hn

omit [Double D] in
theorem Leaves.addSample (hsteady : Steady ev root ctx) (ha : a ∈ subexprs root) (h : Leaves ev root ctx b pre)
    (parent i : Nat) : Leaves ev root ctx (addSample ev a parent b i) (pre ++ [sampleRow (ev.on ctx) a parent i]) := by
  have hvalue : (ev.atOffset a i b.ctx).1 = (ev.on ctx).atOffset a i := hsteady.atOffset b.ctx h.1 a ha i
  have hctx : Visited ev root ctx (ev.atOffset a i b.ctx).2 := .atOffset i ha h.1
  unfold EvalSnapshot.addSample Builder.record
  rcases hresult : ev.atOffset a i b.ctx with ⟨value, c⟩
  rw [hresult] at hvalue hctx
  obtain rfl : value = (ev.on ctx).atOffset a i := hvalue
  cases hout : (ev.on ctx).atOffset a i with
  | none =>
    refine ⟨hctx, ?_⟩
    show (b.nodes ++ [_]).modify b.nodes.length _ = _
    rw [modify_middle rfl, h.2, sampleRow, hout]
    rfl
  | some v =>
    refine ⟨hctx, ?_⟩
    show (b.nodes ++ [_]).modify b.nodes.length _ = _
    rw [modify_middle rfl, h.2, sampleRow, hout]
    rfl

omit [Double D] in
theorem Leaves.addSamples (hsteady : Steady ev root ctx) (ha : a ∈ subexprs root) (h : Leaves ev root ctx b pre)
    (parent : Nat) (offsets : List Nat) :
    Leaves ev root ctx (offsets.foldl (EvalSnapshot.addSample ev a parent) b)
      (pre ++ offsets.map (sampleRow (ev.on ctx) a parent)) := by
  induction offsets generalizing b pre with
  | nil => simpa using h
  | cons i offsets ih =>
    have hfirst := ih (h.addSample hsteady ha parent i)
    rwa [List.append_assoc, List.singleton_append, ← List.map_cons] at hfirst

theorem Leaves.addTimeseriesSamples (hsteady : Steady ev root ctx) {args : List (Ast D)}
    (hargs : ∀ a ∈ args, a ∈ subexprs root) (h : Leaves ev root ctx b pre) (name : String) (parent : Nat) :
    Leaves ev root ctx (addTimeseriesSamples ev name args parent b) (pre ++ sampleRows (ev.on ctx) name args parent) := by
  unfold EvalSnapshot.addTimeseriesSamples sampleRows
  cases trendFunction name with
  | false => simpa using h
  | true =>
    rcases args with _ | ⟨ast, _ | ⟨samples, rest⟩⟩
    · simpa using h
    · simpa using h
    have hsamples : samples ∈ subexprs root := hargs samples (by simp)
    have hvalue : (ev.ast samples b.ctx).1 = (ev.on ctx).ast samples := hsteady.ast b.ctx h.1 samples hsamples
    have hctx : Visited ev root ctx (ev.ast samples b.ctx).2 := .ast hsamples h.1
    rcases hresult : ev.ast samples b.ctx with ⟨value, c⟩
    rw [hresult] at hvalue hctx
    obtain rfl : value = (ev.on ctx).ast samples := hvalue
    have hleft : Leaves ev root ctx { b with ctx := c } pre := ⟨hctx, h.2⟩
    dsimp only
    rw [hresult]
    cases (ev.on ctx).ast samples with
    | none => simpa using hleft
    | some v => exact hleft.addSamples hsteady (hargs ast (by simp)) parent (sampleOffsets v)

omit [Double D] in
theorem Leaves.addSegments (h : Leaves ev root ctx b pre) (parent : Nat) (active : Bool) (path : List String) :
    Leaves ev root ctx (addSegments parent active b path) (pre ++ segmentRows parent active path) := by
  unfold EvalSnapshot.addSegments segmentRows
  generalize path.zipIdx = segments
  induction segments generalizing b pre with
  | nil => simpa using h
  | cons x segments ih =>
    have hfirst := ih (h.addTextChild parent ("segment[" ++ toString x.2 ++ "]") x.1 active)
    rwa [List.append_assoc, List.singleton_append] at hfirst

omit [Double D] in
theorem Leaves.addNameNode (h : Leaves ev root ctx b pre) (name : String) (active : Bool) {n : Nat} (hn : pre.length = n + 1) :
    Leaves ev root ctx (addNameNode name n active b).1 (pre ++ (nameRow name n active).1) ∧
      (addNameNode name n active b).2 = (nameRow (D := D) name n active).2 := by
  unfold EvalSnapshot.addNameNode nameRow
  split
  · exact ⟨h.addTextChild n "function" name true, by rw [h.2]; exact hn⟩
  · exact ⟨by simpa using h, rfl⟩

theorem valueAt_rows {out : Answers D} {n k : Nat}
    (h : b.nodes = pre ++ (rows out reg a parent role true n ++ post)) (hk : pre.length = k) : b.valueAt k = shown out a := by
  obtain ⟨rest, hrest⟩ := rows_eq_cons out reg a parent role true n
  subst hk
  rw [Builder.valueAt, h, hrest]
  simp [rowOf]

theorem valueAt_last {out : Answers D} {n k : Nat} (h : b.nodes = pre ++ rows out reg a parent role true n)
    (hk : pre.length = k) : b.valueAt k = shown out a := by
  rw [← List.append_nil (rows out reg a parent role true n)] at h
  exact valueAt_rows h hk

omit [Double D] in
theorem Leaves.setValue (h : Leaves ev root ctx b (pre ++ openRow a parent role true :: post)) {v : Value D}
    (hshown : shown (ev.on ctx) a = some v) {n : Nat} (hn : pre.length = n) :
    Leaves ev root ctx (b.setValue n v) (pre ++ rowOf (ev.on ctx) a parent role true :: post) := by
  refine ⟨h.1, ?_⟩
  show b.nodes.modify n _ = _
  rw [h.2, modify_middle hn, rowOf, if_pos rfl, hshown]
  rfl

omit [Double D] in
theorem Leaves.takeValue (h : Leaves ev root ctx b (pre ++ openRow a parent role true :: post)) {child : Nat}
    (hvalue : b.valueAt child = shown (ev.on ctx) a) (hstate : stateWithout (ev.on ctx) a = .unknown) {n : Nat}
    (hn : pre.length = n) :
    Leaves ev root ctx (b.takeValue n child) (pre ++ rowOf (ev.on ctx) a parent role true :: post) := by
  unfold Builder.takeValue
  rw [hvalue]
  cases hshown : shown (ev.on ctx) a with
  | some v => exact h.setValue hshown hn
  | none =>
    refine ⟨h.1, ?_⟩
    rw [h.2, rowOf, if_pos rfl, hshown, hstate]
    rfl

mutual

theorem visit_leaves (reg : Registry D) (hsteady : Steady ev root ctx) :
    ∀ (a : Ast D), (∀ x ∈ subexprs a, x ∈ subexprs root) →
      ∀ {b : Builder D} {pre : List (Node D)} (parent : Option Nat) (role : String) (active : Bool),
        Leaves ev root ctx b pre →
        Leaves ev root ctx (visit ev reg a parent role active b) (pre ++ rows (ev.on ctx) reg a parent role active pre.length)
  | .number v, hsub, b, pre, parent, role, active, h => by
    rw [visit, visit.leaf, rows, h.2]
    exact (h.addNode _ parent role active).finish hsteady (hsub _ (mem_subexprs_self _)) rfl rfl rfl
  | .int64 v, hsub, b, pre, parent, role, active, h => by
    rw [visit, visit.leaf, rows, h.2]
    exact (h.addNode _ parent role active).finish hsteady (hsub _ (mem_subexprs_self _)) rfl rfl rfl
  | .bool v, hsub, b, pre, parent, role, active, h => by
    rw [visit, visit.leaf, rows, h.2]
    exact (h.addNode _ parent role active).finish hsteady (hsub _ (mem_subexprs_self _)) rfl rfl rfl
  | .string v, hsub, b, pre, parent, role, active, h => by
    rw [visit, visit.leaf, rows, h.2]
    exact (h.addNode _ parent role active).finish hsteady (hsub _ (mem_subexprs_self _)) rfl rfl rfl
  | .identifier name, hsub, b, pre, parent, role, active, h => by
    rw [visit, visit.leaf, rows, h.2]
    exact (h.addNode _ parent role active).finish hsteady (hsub _ (mem_subexprs_self _)) rfl rfl rfl
  | .param name, hsub, b, pre, parent, role, active, h => by
    rw [visit, visit.leaf, rows, h.2]
    exact (h.addNode _ parent role active).finish hsteady (hsub _ (mem_subexprs_self _)) rfl rfl rfl
  | .record names values, hsub, b, pre, parent, role, active, h => by
    rw [visit, visit.leaf, rows, h.2]
    exact (h.addNode _ parent role active).finish hsteady (hsub _ (mem_subexprs_self _)) rfl rfl rfl
  | .fieldAccess object field, hsub, b, pre, parent, role, active, h => by
    rw [visit, rows, h.2]
    have htexts := ((h.addNode (.fieldAccess object field) parent role active).addTextChild pre.length "object" object
      active).addTextChild pre.length "field" field active
    rw [List.append_assoc, List.append_assoc] at htexts
    exact Leaves.finish hsteady (hsub _ (mem_subexprs_self _)) htexts rfl rfl rfl
  | .chainAccess path, hsub, b, pre, parent, role, active, h => by
    rw [visit, rows, h.2]
    have hsegments := (h.addNode (.chainAccess path) parent role active).addSegments pre.length active path
    rw [List.append_assoc] at hsegments
    exact Leaves.finish hsteady (hsub _ (mem_subexprs_self _)) hsegments rfl rfl rfl
  | .unary op a, hsub, b, pre, parent, role, active, h => by
    rw [visit, rows, h.2]
    have hchild := visit_leaves reg hsteady a (fun x hx => hsub x (by simp [subexprs, hx])) (some pre.length) "operand" active
      (h.addNode (.unary op a) parent role active)
    rw [List.append_assoc, List.length_append, List.length_singleton] at hchild
    exact Leaves.finish hsteady (hsub _ (mem_subexprs_self _)) hchild rfl rfl rfl
  | .fieldOf base field, hsub, b, pre, parent, role, active, h => by
    rw [visit, rows, h.2]
    have hchild := (visit_leaves reg hsteady base (fun x hx => hsub x (by simp [subexprs, hx])) (some pre.length) "base"
      active (h.addNode (.fieldOf base field) parent role active)).addTextChild pre.length "field" field active
    rw [List.append_assoc, List.append_assoc, List.length_append, List.length_singleton] at hchild
    exact Leaves.finish hsteady (hsub _ (mem_subexprs_self _)) hchild rfl rfl rfl
  | .array es, hsub, b, pre, parent, role, active, h => by
    rw [visit, rows, h.2]
    have hitems := visitAll_leaves reg hsteady es (fun x hx => hsub x (by simp [subexprs, hx]))
      (fun i => "item[" ++ toString i ++ "]") pre.length active 0 (h.addNode (.array es) parent role active)
    rw [List.append_assoc, List.length_append, List.length_singleton] at hitems
    exact Leaves.finish hsteady (hsub _ (mem_subexprs_self _)) hitems rfl rfl rfl
  | .index target i, hsub, b, pre, parent, role, active, h => by
    rw [visit, rows, h.2]
    have hsource := visit_leaves reg hsteady target (fun x hx => hsub x (by simp [subexprs, hx])) (some pre.length) "source"
      active (h.addNode (.index target i) parent role active)
    have hindex := visit_leaves reg hsteady i (fun x hx => hsub x (by simp [subexprs, hx])) (some pre.length) "index" active
      hsource
    simp only [List.length_append, List.length_singleton] at hindex
    simp only [List.append_assoc] at hindex
    exact Leaves.finish hsteady (hsub _ (mem_subexprs_self _)) hindex rfl rfl rfl
  | .binary op l r, hsub, b, pre, parent, role, active, h => by
    have hself := hsub _ (mem_subexprs_self _)
    have hleft := visit_leaves reg hsteady l (fun x hx => hsub x (by simp [subexprs, hx])) (some pre.length) "left" active
      (h.addNode (.binary op l r) parent role active)
    have hright := fun reached => visit_leaves reg hsteady r (fun x hx => hsub x (by simp [subexprs, hx])) (some pre.length)
      "right" reached hleft
    simp only [List.length_append, List.length_singleton] at hleft hright
    cases active with
    | false =>
      have hskipped := hright false
      simp only [List.append_assoc] at hskipped
      rw [visit, rows, h.2]
      exact hskipped
    | true =>
      have hvalue : Builder.valueAt (visit ev reg l (some pre.length) "left" true
          (b.addNode (.expr (.binary op l r)) parent role true)) (pre.length + 1) = shown (ev.on ctx) l :=
        valueAt_last hleft.2 (by simp)
      rw [visit, rows, h.2]
      simp only [hvalue, if_true, Bool.true_and]
      cases hdecides : leftDecides op (shown (ev.on ctx) l) with
      | some decided =>
        have hskipped := hright false
        simp only [List.append_assoc] at hskipped
        exact Leaves.setValue hskipped (by rw [shown, hdecides]) rfl
      | none =>
        have hvisited := hright true
        simp only [List.append_assoc] at hvisited
        exact Leaves.evalNode hsteady hself hvisited (by rw [shown, hdecides]) (fun _ => rfl) rfl
  | .ternary c t e, hsub, b, pre, parent, role, active, h => by
    have hself := hsub _ (mem_subexprs_self _)
    have hcondition := visit_leaves reg hsteady c (fun x hx => hsub x (by simp [subexprs, hx])) (some pre.length) "condition"
      active (h.addNode (.ternary c t e) parent role active)
    have hfirst := fun reached => visit_leaves reg hsteady t (fun x hx => hsub x (by simp [subexprs, hx])) (some pre.length)
      "true" reached hcondition
    have hsecond := fun reached other => visit_leaves reg hsteady e (fun x hx => hsub x (by simp [subexprs, hx]))
      (some pre.length) "false" other (hfirst reached)
    simp only [List.length_append, List.length_singleton] at hcondition hfirst hsecond
    cases active with
    | false =>
      have hskipped := hsecond false false
      simp only [List.append_assoc] at hskipped
      rw [visit, rows, h.2]
      simpa [List.append_assoc, rowOf_inactive] using hskipped
    | true =>
      have hvalue : Builder.valueAt (visit ev reg c (some pre.length) "condition" true
          (b.addNode (.expr (.ternary c t e)) parent role true)) (pre.length + 1) = shown (ev.on ctx) c :=
        valueAt_last hcondition.2 (by simp)
      rw [visit, rows, h.2]
      simp only [hvalue, if_true, Bool.true_and]
      cases hchosen : chosenBranch (shown (ev.on ctx) c) with
      | some chosen =>
        cases chosen with
        | true =>
          have hvisited := hsecond true false
          have hbranch := valueAt_rows (by rw [hvisited.2, List.append_assoc]) (congrArg List.length hcondition.2.symm)
          simp only [List.append_assoc] at hvisited ⊢
          exact Leaves.takeValue hvisited (by rw [shown, hchosen]; exact hbranch) (by rw [stateWithout, hchosen]) rfl
        | false =>
          have hvisited := hsecond false true
          have hbranch := valueAt_last hvisited.2 (congrArg List.length (hfirst false).2.symm)
          simp only [List.append_assoc] at hvisited ⊢
          exact Leaves.takeValue hvisited (by rw [shown, hchosen]; exact hbranch) (by rw [stateWithout, hchosen]) rfl
      | none =>
        have hskipped := hsecond false false
        simp only [List.append_assoc] at hskipped
        refine Leaves.evalNode hsteady hself ?_ (by rw [shown, hchosen]) (fun _ => by rw [stateWithout, hchosen]) rfl
        simpa [List.append_assoc] using hskipped
  | .call name args argNames, hsub, b, pre, parent, role, active, h => by
    have hargs : ∀ x ∈ subexprsAll args, x ∈ subexprs root := fun x hx => hsub x (by simp [subexprs, hx])
    obtain ⟨hnamed, habove⟩ := (h.addNode (.call name args argNames) parent role active).addNameNode name active
      (n := pre.length) (by simp)
    rcases hname : EvalSnapshot.addNameNode name pre.length active (b.addNode (.expr (.call name args argNames)) parent role active)
      with ⟨named, above⟩
    rcases hrow : nameRow (D := D) name pre.length active with ⟨nameRows, aboveRow⟩
    rw [hname, hrow] at hnamed habove
    obtain rfl : above = aboveRow := habove
    have hvisited := visitAll_leaves reg hsteady args hargs
      (fun i => argRole (functionArgRole reg name i (argNames[i]?).join) i) above active 0 hnamed
    rw [visit, rows, h.2, hname, hrow]
    have hself := hsub _ (mem_subexprs_self _)
    cases active with
    | false =>
      simp only [List.append_assoc, List.length_append, List.length_singleton, ← Nat.add_assoc] at hvisited
      simpa [visit.finish, List.append_assoc, rowOf_inactive, Nat.add_assoc] using hvisited
    | true =>
      have hsamples := hvisited.addTimeseriesSamples hsteady (fun a ha => hargs a (mem_subexprsAll ha)) name above
      simp only [List.append_assoc, List.length_append, List.length_singleton] at hsamples
      simp only [if_true]
      simpa [List.append_assoc, Nat.add_assoc] using Leaves.finish hsteady hself hsamples rfl rfl rfl
  | .producerAccess name args argNames field, hsub, b, pre, parent, role, active, h => by
    have hargs : ∀ x ∈ subexprsAll args, x ∈ subexprs root := fun x hx => hsub x (by simp [subexprs, hx])
    obtain ⟨hnamed, habove⟩ := (h.addNode (.producerAccess name args argNames field) parent role active).addNameNode name
      active (n := pre.length) (by simp)
    rcases hname : EvalSnapshot.addNameNode name pre.length active
      (b.addNode (.expr (.producerAccess name args argNames field)) parent role active) with ⟨named, above⟩
    rcases hrow : nameRow (D := D) name pre.length active with ⟨nameRows, aboveRow⟩
    rw [hname, hrow] at hnamed habove
    obtain rfl : above = aboveRow := habove
    have hlabelled : Leaves ev root ctx (if active && field != "" then named.addTextChild above "field" field true else named)
        (pre ++ [openRow (.producerAccess name args argNames field) parent role active] ++
          (nameRows ++ if active && field != "" then [textRow above "field" field true] else [])) := by
      split
      · rw [← List.append_assoc]
        exact hnamed.addTextChild above "field" field true
      · rwa [List.append_nil]
    have hvisited := visitAll_leaves reg hsteady args hargs (fun i => argRole (argNames[i]?).join i) above active 0 hlabelled
    have hlength : ∀ rest : List (Node D), (pre ++ [openRow (.producerAccess name args argNames field) parent role active] ++
        rest).length = pre.length + 1 + rest.length := fun rest => by rw [List.length_append, List.length_append]; rfl
    rw [hlength, List.append_assoc, List.append_assoc] at hvisited
    rw [visit, rows, h.2, hname, hrow]
    exact Leaves.finish hsteady (hsub _ (mem_subexprs_self _)) hvisited rfl rfl rfl

theorem visitAll_leaves (reg : Registry D) (hsteady : Steady ev root ctx) :
    ∀ (as : List (Ast D)), (∀ x ∈ subexprsAll as, x ∈ subexprs root) →
      ∀ {b : Builder D} {pre : List (Node D)} (role : Nat → String) (parent : Nat) (active : Bool) (i : Nat),
        Leaves ev root ctx b pre →
        Leaves ev root ctx (visitAll ev reg role parent active i as b)
          (pre ++ rowsAll (ev.on ctx) reg role parent active i as pre.length)
  | [], _, b, pre, role, parent, active, i, h => by simpa [visitAll, rowsAll] using h
  | a :: as, hsub, b, pre, role, parent, active, i, h => by
    have hfirst := visit_leaves reg hsteady a (fun x hx => hsub x (by simp [subexprsAll, hx])) (some parent) (role i) active h
    have hrest := visitAll_leaves reg hsteady as (fun x hx => hsub x (by simp [subexprsAll, hx])) role parent active (i + 1) hfirst
    rw [visitAll, rowsAll]
    simpa [List.append_assoc] using hrest

end

end Cxpr.EvalSnapshot
