import Cxpr.Alias.Correct
import Cxpr.Lexer.Partition
import Cxpr.Parser.Source

/-! When alias expansion gives the full expansion: it always ends, and for a tree without cycles the tree that is printed
    is the full expansion exactly when all references stand at places that the expander visits. -/

namespace Cxpr.Alias
open Relation
variable {D : Type} {aliases : Aliases} {parse : String → Except Error (Ast D)}

section
variable {α β : Type}

def Proper (r : Except Failure α) : Prop := r ≠ .error .tooDeep ∧ r ≠ .error .noAlias

theorem proper_ok (a : α) : Proper (.ok a) := ⟨by simp, by simp⟩

theorem proper_error {f : Failure} (hdeep : f ≠ .tooDeep) (halias : f ≠ .noAlias) : Proper (.error f : Except Failure α) :=
  ⟨fun h => hdeep (Except.error.inj h), fun h => halias (Except.error.inj h)⟩

theorem Proper.bind {r : Except Failure α} {k : α → Except Failure β} (h : Proper r) (hk : ∀ a, Proper (k a)) :
    Proper (r >>= k) := by
  cases r with
  | ok a => exact hk a
  | error f => exact proper_error (fun hf => h.1 (congrArg _ hf)) fun hf => h.2 (congrArg _ hf)

end

section
variable {named : String → Except Failure (Ast D)}

theorem proper_expandObject (hnamed : ∀ b, isAlias aliases b = true → Proper (named b)) (object tail : String)
    (ast : Ast D) : Proper (expandObject aliases named object tail ast) := by
  unfold expandObject
  split
  · rename_i halias
    exact (hnamed object halias).bind fun _ => proper_ok _
  · exact proper_ok _

mutual

theorem proper_expandAst (hnamed : ∀ b, isAlias aliases b = true → Proper (named b)) (a : Ast D) :
    Proper (expandAst aliases named a) := by
  cases a with
  | identifier name =>
    rw [expandAst]
    split
    · rename_i halias
      exact hnamed name halias
    · exact proper_ok _
  | fieldAccess object field =>
    rw [expandAst, expandField]
    split
    · rename_i halias
      exact hnamed _ halias
    · exact proper_expandObject hnamed object field _
  | chainAccess path =>
    cases path with
    | nil => exact proper_error (by decide) (by decide)
    | cons first rest =>
      rw [expandAst, expandChain]
      split
      · rename_i halias
        exact hnamed _ halias
      · exact proper_expandObject hnamed first _ _
  | fieldOf base field => exact (proper_expandAst hnamed base).bind fun _ => proper_ok _
  | producerAccess name args argNames field => exact (proper_expandArgs hnamed args).bind fun _ => proper_ok _
  | binary op left right =>
    exact (proper_expandAst hnamed left).bind fun _ => (proper_expandAst hnamed right).bind fun _ => proper_ok _
  | unary op operand => exact (proper_expandAst hnamed operand).bind fun _ => proper_ok _
  | call name args argNames => exact (proper_expandArgs hnamed args).bind fun _ => proper_ok _
  | index target i =>
    exact (proper_expandAst hnamed target).bind fun _ => (proper_expandAst hnamed i).bind fun _ => proper_ok _
  | ternary c t e =>
    exact (proper_expandAst hnamed c).bind fun _ => (proper_expandAst hnamed t).bind fun _ =>
      (proper_expandAst hnamed e).bind fun _ => proper_ok _
  | array elements => exact proper_ok _
  | record names values => exact proper_ok _
  | number v => exact proper_ok _
  | int64 v => exact proper_ok _
  | bool v => exact proper_ok _
  | string v => exact proper_ok _
  | param name => exact proper_ok _

theorem proper_expandArgs (hnamed : ∀ b, isAlias aliases b = true → Proper (named b)) (as : List (Ast D)) :
    Proper (expandArgs aliases named as) := by
  cases as with
  | nil => exact proper_ok _
  | cons a as => exact (proper_expandAst hnamed a).bind fun _ => (proper_expandArgs hnamed as).bind fun _ => proper_ok _

end
end

theorem proper_expandNamed {fuel : Nat} {stack : List String} {b : String} (hstack : Stacked aliases stack)
    (hfuel : aliases.length < fuel + stack.length) (halias : isAlias aliases b = true) :
    Proper (expandNamed parse aliases fuel stack b) := by
  induction fuel generalizing stack b with
  | zero => exact absurd hstack.length_le (by omega)
  | succ fuel ih =>
    obtain ⟨expression, hlookup⟩ := Option.isSome_iff_exists.mp halias
    simp only [expandNamed, hlookup]
    by_cases hmem : b ∈ stack
    · rw [if_pos hmem]
      exact proper_error (by decide) (by decide)
    · rw [if_neg hmem]
      cases parse expression with
      | error e => exact proper_error (by simp) (by simp)
      | ok t =>
        refine proper_expandAst (fun c hc => ?_) t
        exact ih (hstack.push hmem halias) (by simpa [Nat.add_assoc, Nat.add_comm 1] using hfuel) hc

theorem proper_expandTree (parse : String → Except Error (Ast D)) (aliases : Aliases) (expression : String) :
    Proper (expandTree parse aliases expression) := by
  unfold expandTree
  cases parse expression with
  | error e => exact proper_error (by simp) (by simp)
  | ok ast => exact proper_expandAst (fun b hb => proper_expandNamed stacked_nil (Nat.lt_succ_self _) hb) ast

theorem makeFieldFromExpanded_cases (a : Ast D) (field : String) :
    (∃ name args argNames, a = .call name args argNames ∧
      makeFieldFromExpanded a field = some (.producerAccess name args argNames field)) ∨
      makeFieldFromExpanded a field = none := by
  cases a with
  | call name args argNames => exact .inl ⟨name, args, argNames, rfl, rfl⟩
  | _ => exact .inr rfl

theorem fieldOn_cases (a : Ast D) (field : String) :
    (∃ name args argNames, a = .call name args argNames ∧ fieldOn a field = .producerAccess name args argNames field) ∨
      fieldOn a field = .fieldOf a field := by
  unfold fieldOn
  obtain ⟨name, args, argNames, hcall, hmade⟩ | hmade := makeFieldFromExpanded_cases a field
  · exact .inl ⟨name, args, argNames, hcall, by rw [hmade]; rfl⟩
  · exact .inr (by rw [hmade]; rfl)

theorem segments?_fieldOn (a : Ast D) (field : String) : segments? (fieldOn a field) = none := by
  obtain ⟨_, _, _, _, h⟩ | h := fieldOn_cases a field <;> rw [h] <;> rfl

variable {tail : List String} {name : String}

theorem exists_fieldOn (hne : tail ≠ []) (a : Ast D) :
    ∃ init field, tail = init ++ [field] ∧ tail.foldl fieldOn a = fieldOn (init.foldl fieldOn a) field := by
  obtain ⟨init, field, rfl⟩ := (List.eq_nil_or_concat tail).resolve_left hne
  exact ⟨init, field, List.concat_eq_append, by simp⟩

theorem segments?_foldl (hne : tail ≠ []) (a : Ast D) : segments? (tail.foldl fieldOn a) = none := by
  obtain ⟨init, field, _, h⟩ := exists_fieldOn hne a
  rw [h, segments?_fieldOn]

theorem foldl_ne_call (hne : tail ≠ []) (a : Ast D) {args : List (Ast D)}
    {argNames : List (Option String)} : tail.foldl fieldOn a ≠ .call name args argNames := by
  obtain ⟨init, field, _, h⟩ := exists_fieldOn hne a
  rw [h]
  obtain ⟨_, _, _, _, h⟩ | h := fieldOn_cases (init.foldl fieldOn a) field <;> rw [h] <;> simp

theorem call_of_foldl (hne : tail ≠ []) {a : Ast D} {args : List (Ast D)}
    {argNames : List (Option String)} {field : String}
    (h : tail.foldl fieldOn a = .producerAccess name args argNames field) :
    tail = [field] ∧ a = .call name args argNames := by
  obtain ⟨init, last, rfl, hfold⟩ := exists_fieldOn hne a
  rw [hfold] at h
  obtain ⟨name', args', argNames', hcall, hon⟩ | hon := fieldOn_cases (init.foldl fieldOn a) last
  · rw [hon] at h
    cases h
    cases init with
    | nil => exact ⟨rfl, hcall⟩
    | cons first rest => exact absurd hcall (foldl_ne_call (List.cons_ne_nil _ _) a)
  · rw [hon] at h
    cases h

/-! ### Expanded trees are no references -/

section
variable {a : String} {u : Ast D} {path : List String}

theorem substPath_cases (aliases : Aliases) (E : String → Ast D) (path : List String) (ast : Ast D) :
    (aliasOf aliases path = none ∧ substPath aliases E path ast = ast) ∨
      (∃ name, aliasOf aliases path = some (name, []) ∧ substPath aliases E path ast = E name) ∨
      ∃ name tail, aliasOf aliases path = some (name, tail) ∧ tail ≠ [] ∧
        substPath aliases E path ast = tail.foldl fieldOn (E name) := by
  cases hof : aliasOf aliases path with
  | none => exact .inl ⟨rfl, by simp [substPath, hof]⟩
  | some found =>
    obtain ⟨name, tail⟩ := found
    cases tail with
    | nil => exact .inr (.inl ⟨name, rfl, by simp [substPath, hof]⟩)
    | cons field rest => exact .inr (.inr ⟨name, _, rfl, List.cons_ne_nil _ _, by simp [substPath, hof]⟩)

theorem mem_pathRefs {name : String} {tail : List String} (h : aliasOf aliases path = some (name, tail)) :
    name ∈ pathRefs aliases path := by simp [pathRefs, h]

theorem subst_of_segments? (aliases : Aliases) (E : String → Ast D) {ast : Ast D} (h : segments? ast = some path) :
    refs aliases ast = pathRefs aliases path ∧ subst aliases E ast = substPath aliases E path ast := by
  cases ast <;> cases h <;> exact ⟨rfl, rfl⟩

theorem segments?_subst {E : String → Ast D} {ast : Ast D} (h : segments? ast = none) :
    segments? (subst aliases E ast) = none := by
  cases ast <;> first | rfl | cases h

theorem aliasOf_of_unfolds (h : (references aliases).Unfolds (body parse aliases) a u) (hpath : segments? u = some path) :
    aliasOf aliases path = none := by
  induction h with
  | @intro a t E hbody _ ih =>
    change segments? (subst aliases E t) = some path at hpath
    cases hsegments : segments? t with
    | none =>
      rw [segments?_subst hsegments] at hpath
      cases hpath
    | some path' =>
      obtain ⟨hrefs, hsubst⟩ := subst_of_segments? aliases E hsegments
      rw [hsubst] at hpath
      obtain ⟨hof, hsame⟩ | ⟨name, hof, hsame⟩ | ⟨name, tail, hof, hne, hsame⟩ := substPath_cases aliases E path' t
      · rw [hsame, hsegments] at hpath
        cases hpath
        exact hof
      · rw [hsame] at hpath
        have hmem : name ∈ refs aliases t := hrefs ▸ mem_pathRefs hof
        exact ih name hmem hpath
      · rw [hsame, segments?_foldl hne] at hpath
        cases hpath

theorem callAlias_of_unfolds (h : (references aliases).Unfolds (body parse aliases) a u) {name : String}
    {args : List (Ast D)} {argNames : List (Option String)} (hcall : u = .call name args argNames) :
    CallAlias parse aliases a := by
  induction h with
  | @intro a t E hbody _ ih =>
    change subst aliases E t = .call name args argNames at hcall
    cases hsegments : segments? t with
    | none =>
      cases t with
      | call _ _ _ => exact .call hbody
      | identifier _ | fieldAccess _ _ | chainAccess _ => cases hsegments
      | _ => cases hcall
    | some path' =>
      obtain ⟨hrefs, hsubst⟩ := subst_of_segments? aliases E hsegments
      rw [hsubst] at hcall
      obtain ⟨_, hsame⟩ | ⟨name', hof, hsame⟩ | ⟨name', tail, hof, hne, hsame⟩ := substPath_cases aliases E path' t
      · rw [hsame] at hcall
        rw [hcall] at hsegments
        cases hsegments
      · rw [hsame] at hcall
        have hmem : name' ∈ refs aliases t := hrefs ▸ mem_pathRefs hof
        exact .named hbody hsegments hof (ih name' hmem hcall)
      · exact absurd (hsame.symm.trans hcall) (foldl_ne_call hne _)

end

abbrev Unfold (parse : String → Except Error (Ast D)) (aliases : Aliases) (names : List String) : Prop :=
  ∀ b ∈ names, ∃ u, (references aliases).Unfolds (body parse aliases) b u

theorem Unfold.left {names names' : List String} (h : Unfold parse aliases (names ++ names')) : Unfold parse aliases names :=
  fun b hb => h b (List.mem_append_left _ hb)

theorem Unfold.right {names names' : List String} (h : Unfold parse aliases (names ++ names')) :
    Unfold parse aliases names' :=
  fun b hb => h b (List.mem_append_right _ hb)

section
variable {path : List String}

theorem unfolds_expanded {b : String} (h : ∃ u, (references aliases).Unfolds (body parse aliases) b u) :
    (references aliases).Unfolds (body parse aliases) b (expanded parse aliases b) := by
  obtain ⟨u, hu⟩ := h
  rwa [show expanded parse aliases b = u from Substitution.unfolded_of_unfolds hu]

theorem pathRefs_of_substPath_eq {ast : Ast D} (hunfold : Unfold parse aliases (pathRefs aliases path))
    (hsegments : segments? ast = some path) (h : substPath aliases (expanded parse aliases) path ast = ast) :
    pathRefs aliases path = [] := by
  obtain ⟨hof, _⟩ | ⟨name, hof, hsame⟩ | ⟨name, tail, hof, hne, hsame⟩ :=
    substPath_cases aliases (expanded parse aliases) path ast
  · simp [pathRefs, hof]
  · have hu := unfolds_expanded (hunfold name (mem_pathRefs hof))
    rw [← hsame, h] at hu
    rw [aliasOf_of_unfolds hu hsegments] at hof
    cases hof
  · rw [← h, hsame, segments?_foldl hne] at hsegments
    cases hsegments

mutual

theorem refs_of_fullExpansion_eq (a : Ast D) (hunfold : Unfold parse aliases (refs aliases a))
    (h : subst aliases (expanded parse aliases) a = a) : refs aliases a = [] := by
  cases a with
  | identifier name => exact pathRefs_of_substPath_eq hunfold rfl h
  | fieldAccess object field => exact pathRefs_of_substPath_eq hunfold rfl h
  | chainAccess path => exact pathRefs_of_substPath_eq hunfold rfl h
  | array elements =>
    simp only [subst, Ast.array.injEq] at h
    exact refsList_of_fullExpansion_eq elements hunfold h
  | record names values =>
    simp only [subst, Ast.record.injEq, true_and] at h
    exact refsList_of_fullExpansion_eq values hunfold h
  | fieldOf base field =>
    simp only [subst, Ast.fieldOf.injEq, and_true] at h
    exact refs_of_fullExpansion_eq base hunfold h
  | producerAccess name args argNames field =>
    simp only [subst, Ast.producerAccess.injEq, and_true, true_and] at h
    exact refsList_of_fullExpansion_eq args hunfold h
  | binary op left right =>
    simp only [subst, Ast.binary.injEq, true_and] at h
    rw [refs, refs_of_fullExpansion_eq left hunfold.left h.1,
      refs_of_fullExpansion_eq right hunfold.right h.2, List.append_nil]
  | unary op operand =>
    simp only [subst, Ast.unary.injEq, true_and] at h
    exact refs_of_fullExpansion_eq operand hunfold h
  | call name args argNames =>
    simp only [subst, Ast.call.injEq, and_true, true_and] at h
    exact refsList_of_fullExpansion_eq args hunfold h
  | index target i =>
    simp only [subst, Ast.index.injEq] at h
    rw [refs, refs_of_fullExpansion_eq target hunfold.left h.1,
      refs_of_fullExpansion_eq i hunfold.right h.2, List.append_nil]
  | ternary c t e =>
    simp only [subst, Ast.ternary.injEq] at h
    rw [refs, refs_of_fullExpansion_eq c hunfold.left h.1,
      refs_of_fullExpansion_eq t hunfold.right.left h.2.1,
      refs_of_fullExpansion_eq e hunfold.right.right h.2.2, List.append_nil,
      List.append_nil]
  | number v => rfl
  | int64 v => rfl
  | bool v => rfl
  | string v => rfl
  | param name => rfl

theorem refsList_of_fullExpansion_eq (as : List (Ast D)) (hunfold : Unfold parse aliases (refsList aliases as))
    (h : substList aliases (expanded parse aliases) as = as) : refsList aliases as = [] := by
  cases as with
  | nil => rfl
  | cons a as =>
    simp only [substList, List.cons.injEq] at h
    rw [refsList, refs_of_fullExpansion_eq a hunfold.left h.1,
      refsList_of_fullExpansion_eq as hunfold.right h.2, List.append_nil]

end
end

theorem length_lt_fullKey (first second : String) (rest : List String) :
    ((second :: rest).getLast (List.cons_ne_nil _ _)).length < (Ast.fullKey (first :: second :: rest)).length := by
  induction rest generalizing first second with
  | nil =>
    have hdot : ".".length = 1 := rfl
    rw [Ast.fullKey, String.intercalate_cons_cons, String.intercalate_singleton]
    simp only [String.length_append, List.getLast_singleton, hdot]
    omega
  | cons third rest ih =>
    have hrest := ih second third
    rw [Ast.fullKey] at hrest ⊢
    rw [String.intercalate_cons_cons, List.getLast_cons (List.cons_ne_nil _ _)]
    simp only [String.length_append]
    omega

theorem single_of_tail {first : String} {rest : List String}
    (hof : aliasOf aliases (first :: rest) = some (name, tail)) (htail : tail = [Ast.fullKey rest]) :
    (first :: rest).length = 2 ∧ name = first := by
  obtain ⟨m, hpos, hle, rfl, rfl⟩ := prefixAlias_split (Nat.le_refl _) hof
  have hlength := congrArg List.length htail
  simp only [List.length_drop, List.length_cons, List.length_nil] at hlength hle
  cases rest with
  | nil =>
    simp only [List.length_nil] at hlength
    omega
  | cons second rest =>
    cases rest with
    | nil =>
      simp only [List.length_cons, List.length_nil] at hlength
      obtain rfl : m = 1 := by omega
      exact ⟨rfl, rfl⟩
    | cons third rest =>
      have hne : (first :: second :: third :: rest).drop m ≠ [] := by simp [htail]
      have hlast := List.getLast_drop hne
      simp only [htail, List.getLast_singleton] at hlast
      have hlt := length_lt_fullKey second third rest
      rw [hlast, List.getLast_cons (List.cons_ne_nil _ _), List.getLast_cons (List.cons_ne_nil _ _)] at hlt
      omega

section
variable {named : String → Except Failure (Ast D)}

theorem covered_of_path {first : String} {rest : List String} {ast : Ast D}
    (hsegments : segments? ast = some (first :: rest)) (hunfold : Unfold parse aliases (pathRefs aliases (first :: rest)))
    (h : (if isAlias aliases (Ast.fullKey (first :: rest)) then named (Ast.fullKey (first :: rest))
        else expandObject aliases named first (Ast.fullKey rest) ast) =
      .ok (substPath aliases (expanded parse aliases) (first :: rest) ast)) :
    CoveredPath parse aliases (first :: rest) ∧
      ∀ b ∈ pathRefs aliases (first :: rest), named b = .ok (expanded parse aliases b) := by
  cases hwhole : isAlias aliases (Ast.fullKey (first :: rest)) with
  | true =>
    have hof := aliasOf_whole (List.cons_ne_nil _ _) hwhole
    rw [hwhole, if_pos rfl, substPath, hof] at h
    refine ⟨fun name tail hname => ?_, fun b hb => ?_⟩
    · rw [hof] at hname
      cases hname
      exact .inl rfl
    · rw [pathRefs, hof] at hb
      rw [List.mem_singleton.mp hb]
      exact h
  | false =>
    rw [hwhole, if_neg Bool.false_ne_true] at h
    cases hof : aliasOf aliases (first :: rest) with
    | none =>
      refine ⟨fun name tail hname => ?_, fun b hb => ?_⟩
      · rw [hof] at hname
        cases hname
      · rw [pathRefs, hof] at hb
        cases hb
    | some found =>
      obtain ⟨name, tail⟩ := found
      have hne := aliasOf_tail_ne_nil hwhole hof
      have hsubst : substPath aliases (expanded parse aliases) (first :: rest) ast =
          tail.foldl fieldOn (expanded parse aliases name) := by simp [substPath, hof]
      have hfields := segments?_foldl hne (expanded parse aliases name)
      rw [hsubst] at h
      -- a reference that stays is no field on the tree of its alias
      have hstays : ast ≠ tail.foldl fieldOn (expanded parse aliases name) := by
        rintro heq
        rw [← heq, hsegments] at hfields
        cases hfields
      unfold expandObject at h
      split at h
      case isFalse => exact absurd (Except.ok.inj h) hstays
      case isTrue hfirst =>
        obtain ⟨x, hx, hmade⟩ := bind_eq_ok.mp h
        obtain ⟨callee, args, argNames, rfl, hcall⟩ | hnone := makeFieldFromExpanded_cases x (Ast.fullKey rest)
        · rw [hcall] at hmade
          obtain ⟨htail, htree⟩ := call_of_foldl hne (Except.ok.inj hmade).symm
          obtain ⟨hlength, rfl⟩ := single_of_tail hof htail
          refine ⟨fun name' tail' hname => ?_, fun b hb => ?_⟩
          · rw [hof] at hname
            cases hname
            exact .inr ⟨hlength, callAlias_of_unfolds (unfolds_expanded (hunfold _ (mem_pathRefs hof))) htree⟩
          · rw [pathRefs, hof] at hb
            rw [List.mem_singleton.mp hb, hx, htree]
        · rw [hnone] at hmade
          exact absurd (Except.ok.inj hmade) hstays

mutual

theorem covered_of_expandAst (a : Ast D) (hunfold : Unfold parse aliases (refs aliases a))
    (h : expandAst aliases named a = .ok (subst aliases (expanded parse aliases) a)) :
    Covered parse aliases a ∧ ∀ b ∈ refs aliases a, named b = .ok (expanded parse aliases b) := by
  cases a with
  | identifier name =>
    have hsegments : segments? (.identifier name : Ast D) = some [name] := rfl
    refine ⟨trivial, (covered_of_path hsegments hunfold ?_).2⟩
    rw [expandAst] at h
    change (if isAlias aliases name then named name else _) = _
    rw [expandObject]
    cases halias : isAlias aliases name <;> rw [halias] at h <;> exact h
  | fieldAccess object field => exact covered_of_path rfl hunfold h
  | chainAccess path =>
    cases path with
    | nil => cases h
    | cons first rest =>
      have hsegments : segments? (.chainAccess (first :: rest) : Ast D) = some (first :: rest) := rfl
      obtain ⟨hcovered, hnamed⟩ := covered_of_path hsegments hunfold h
      exact ⟨⟨List.cons_ne_nil _ _, hcovered⟩, hnamed⟩
  | array elements =>
    have hsame : substList aliases (expanded parse aliases) elements = elements := by
      simpa [expandAst, subst] using h.symm
    have hrefs := refsList_of_fullExpansion_eq elements hunfold hsame
    exact ⟨hrefs, fun b hb => by rw [refs, hrefs] at hb; cases hb⟩
  | record names values =>
    have hsame : substList aliases (expanded parse aliases) values = values := by
      simpa [expandAst, subst] using h.symm
    have hrefs := refsList_of_fullExpansion_eq values hunfold hsame
    exact ⟨hrefs, fun b hb => by rw [refs, hrefs] at hb; cases hb⟩
  | fieldOf base field =>
    obtain ⟨base', hbase, heq⟩ := bind_eq_ok.mp h
    cases heq
    exact covered_of_expandAst base hunfold hbase
  | producerAccess name args argNames field =>
    obtain ⟨args', hargs, heq⟩ := bind_eq_ok.mp h
    cases heq
    exact covered_of_expandArgs args hunfold hargs
  | binary op left right =>
    obtain ⟨left', hleft, h⟩ := bind_eq_ok.mp h
    obtain ⟨right', hright, heq⟩ := bind_eq_ok.mp h
    cases heq
    have hl := covered_of_expandAst left hunfold.left hleft
    have hr := covered_of_expandAst right hunfold.right hright
    exact ⟨⟨hl.1, hr.1⟩, fun b hb => (List.mem_append.mp hb).elim (hl.2 b) (hr.2 b)⟩
  | unary op operand =>
    obtain ⟨operand', hoperand, heq⟩ := bind_eq_ok.mp h
    cases heq
    exact covered_of_expandAst operand hunfold hoperand
  | call name args argNames =>
    obtain ⟨args', hargs, heq⟩ := bind_eq_ok.mp h
    cases heq
    exact covered_of_expandArgs args hunfold hargs
  | index target i =>
    obtain ⟨target', htarget, h⟩ := bind_eq_ok.mp h
    obtain ⟨i', hindex, heq⟩ := bind_eq_ok.mp h
    cases heq
    have ht := covered_of_expandAst target hunfold.left htarget
    have hi := covered_of_expandAst i hunfold.right hindex
    exact ⟨⟨ht.1, hi.1⟩, fun b hb => (List.mem_append.mp hb).elim (ht.2 b) (hi.2 b)⟩
  | ternary c t e =>
    obtain ⟨c', hcondition, h⟩ := bind_eq_ok.mp h
    obtain ⟨t', htrue, h⟩ := bind_eq_ok.mp h
    obtain ⟨e', hfalse, heq⟩ := bind_eq_ok.mp h
    cases heq
    have hc := covered_of_expandAst c hunfold.left hcondition
    have ht := covered_of_expandAst t hunfold.right.left htrue
    have he := covered_of_expandAst e hunfold.right.right hfalse
    refine ⟨⟨hc.1, ht.1, he.1⟩, fun b hb => (List.mem_append.mp hb).elim (hc.2 b) fun hb => ?_⟩
    exact (List.mem_append.mp hb).elim (ht.2 b) (he.2 b)
  | number v => exact ⟨trivial, fun b hb => absurd hb List.not_mem_nil⟩
  | int64 v => exact ⟨trivial, fun b hb => absurd hb List.not_mem_nil⟩
  | bool v => exact ⟨trivial, fun b hb => absurd hb List.not_mem_nil⟩
  | string v => exact ⟨trivial, fun b hb => absurd hb List.not_mem_nil⟩
  | param name => exact ⟨trivial, fun b hb => absurd hb List.not_mem_nil⟩

theorem covered_of_expandArgs (as : List (Ast D)) (hunfold : Unfold parse aliases (refsList aliases as))
    (h : expandArgs aliases named as = .ok (substList aliases (expanded parse aliases) as)) :
    CoveredList parse aliases as ∧ ∀ b ∈ refsList aliases as, named b = .ok (expanded parse aliases b) := by
  cases as with
  | nil => exact ⟨trivial, fun b hb => absurd hb List.not_mem_nil⟩
  | cons a as =>
    obtain ⟨a', ha, h⟩ := bind_eq_ok.mp h
    obtain ⟨as', has, heq⟩ := bind_eq_ok.mp h
    cases heq
    have hhead := covered_of_expandAst a hunfold.left ha
    have htail := covered_of_expandArgs as hunfold.right has
    exact ⟨⟨hhead.1, htail.1⟩, fun b hb => (List.mem_append.mp hb).elim (hhead.2 b) (htail.2 b)⟩

end

end

theorem covered_of_expandNamed {fuel : Nat} {stack : List String} {b : String} {u : Ast D}
    (hu : (references aliases).Unfolds (body parse aliases) b u)
    (h : expandNamed parse aliases fuel stack b = .ok (expanded parse aliases b)) {c : String} {t : Ast D}
    (hreach : ReflTransGen ((references aliases).Mentions (body parse aliases)) b c)
    (hbody : body parse aliases c = some t) : Covered parse aliases t := by
  induction hu generalizing fuel stack with
  | @intro b s E hs hrefs ih =>
    have hunfold : Unfold parse aliases (refs aliases s) := fun d hd => ⟨E d, hrefs d hd⟩
    have hexpanded : expanded parse aliases b = subst aliases (expanded parse aliases) s :=
      Substitution.unfolded_of_unfolds (Substitution.unfolds_of_body hs hunfold)
    obtain ⟨expression, hlookup, hparse⟩ := lookup_of_body hs
    cases fuel with
    | zero => cases h
    | succ fuel =>
      simp only [expandNamed, hlookup, hparse] at h
      split at h
      · cases h
      · rw [hexpanded] at h
        obtain ⟨hcovered, hnamed⟩ := covered_of_expandAst s hunfold h
        rcases hreach.cases_head with rfl | ⟨d, ⟨s', hs', hd⟩, hrest⟩
        · rw [hs] at hbody
          cases hbody
          exact hcovered
        · rw [hs] at hs'
          cases hs'
          exact ih d hd (hnamed d hd) hrest

/-- What the expansion of an expression is to come to: the error exactly when a cycle is reached, and otherwise a text
    that reads as the full expansion. -/
structure Meets [Double D] (parse : String → Except Error (Ast D)) (aliases : Aliases) (expression : String)
    (ast : Ast D) : Prop where
  cycle : expandAliases parse aliases expression = .error .cycle ↔ Cyclic parse aliases ast
  expanded : ¬Cyclic parse aliases ast →
    ∃ text, expandAliases parse aliases expression = .ok text ∧ parse text = .ok (fullExpansion parse aliases ast)

def ReadsBack [Double D] (parse : String → Except Error (Ast D)) (aliases : Aliases) (ast : Ast D) : Prop :=
  parse (fullExpansion parse aliases ast).toText = .ok (fullExpansion parse aliases ast)

section
variable [Double D] {expression : String} {ast : Ast D}

theorem meets_iff_of_covered (hast : parse expression = .ok ast) (hparses : Parses parse aliases ast)
    (hcovered : CoveredAll parse aliases ast) :
    Meets parse aliases expression ast ↔ Cyclic parse aliases ast ∨ ReadsBack parse aliases ast := by
  obtain ⟨hcycle, htree⟩ := expandTree_covered hast hparses hcovered
  have hiff : expandAliases parse aliases expression = .error .cycle ↔ Cyclic parse aliases ast := by
    rw [← hcycle, expandAliases]
    cases expandTree parse aliases expression <;> simp [Except.map]
  have htext (h : ¬Cyclic parse aliases ast) :
      expandAliases parse aliases expression = .ok (fullExpansion parse aliases ast).toText := by
    rw [expandAliases, htree h]
    rfl
  constructor
  · intro hmeets
    by_cases hcyclic : Cyclic parse aliases ast
    · exact .inl hcyclic
    · obtain ⟨text, hrun, hread⟩ := hmeets.expanded hcyclic
      rw [htext hcyclic] at hrun
      cases hrun
      exact .inr hread
  · intro h
    exact ⟨hiff, fun hcyclic => ⟨_, htext hcyclic, h.resolve_left hcyclic⟩⟩

omit [Double D] in
theorem unfold_of_acyclic (hparses : Parses parse aliases ast) (hacyclic : ¬Cyclic parse aliases ast) :
    Unfold parse aliases (refs aliases ast) := fun b hb =>
  Substitution.exists_unfolds (fun _ _ h => mem_names_of_isAlias (isAlias_of_body h)) List.nodup_nil (List.nil_subset _)
    (fun _ hs => absurd hs List.not_mem_nil) (Nat.lt_succ_self _)
    fun c hc => ⟨hparses c ⟨b, hb, hc⟩, fun hcycle => hacyclic ⟨b, hb, c, hc, hcycle⟩⟩

omit [Double D] in
theorem expandTree_eq_iff (hast : parse expression = .ok ast) (hparses : Parses parse aliases ast)
    (hacyclic : ¬Cyclic parse aliases ast) :
    expandTree parse aliases expression = .ok (fullExpansion parse aliases ast) ↔ CoveredAll parse aliases ast := by
  constructor
  · intro h
    simp only [expandTree, hast] at h
    have hunfold : Unfold parse aliases (refs aliases ast) := unfold_of_acyclic hparses hacyclic
    obtain ⟨hcovered, hnamed⟩ := covered_of_expandAst ast hunfold h
    refine ⟨hcovered, fun a t hreach hbody => ?_⟩
    obtain ⟨b, hb, hreach⟩ := hreach
    obtain ⟨u, hu⟩ := hunfold b hb
    exact covered_of_expandNamed hu (hnamed b hb) hreach hbody
  · intro h
    exact (expandTree_covered hast hparses h).2 hacyclic

end

section
variable {ast t : Ast D} {b : String}

structure Single (parse : String → Except Error (Ast D)) (aliases : Aliases) (ast : Ast D) (b : String) (t : Ast D) :
    Prop where
  refs : refs aliases ast = [b]
  body : body parse aliases b = some t
  plain : Alias.refs aliases t = []

namespace Single

theorem unfolds (h : Single parse aliases ast b t) : (references aliases).Unfolds (Alias.body parse aliases) b t := by
  have hintro : (references aliases).Unfolds (Alias.body parse aliases) b (subst aliases (fun _ => t) t) :=
    .intro _ h.body fun c hc => by
      change c ∈ Alias.refs aliases t at hc
      rw [h.plain] at hc
      cases hc
  rwa [subst_of_refs_nil t h.plain] at hintro

theorem unfold (h : Single parse aliases ast b t) : Unfold parse aliases (Alias.refs aliases ast) := by
  rw [h.refs]
  intro c hc
  exact ⟨t, List.mem_singleton.mp hc ▸ h.unfolds⟩

theorem not_cyclic (h : Single parse aliases ast b t) : ¬Cyclic parse aliases ast :=
  Substitution.Unfoldable.not_cyclic h.unfold

theorem fullExpansion (h : Single parse aliases ast b t) :
    fullExpansion parse aliases ast = subst aliases (fun _ => t) ast :=
  subst_congr ast fun c hc => by
    rw [h.refs] at hc
    rw [List.mem_singleton.mp hc]
    exact Substitution.unfolded_of_unfolds h.unfolds

theorem reaches (h : Single parse aliases ast b t) {c : String} (hc : Reaches parse aliases ast c) : c = b := by
  obtain ⟨d, hd, hreach⟩ := hc
  rw [h.refs] at hd
  obtain rfl := List.mem_singleton.mp hd
  rcases hreach.cases_head with rfl | ⟨e, ⟨u, hu, he⟩, _⟩
  · rfl
  · rw [h.body] at hu
    cases hu
    change e ∈ Alias.refs aliases t at he
    rw [h.plain] at he
    cases he

theorem parses (h : Single parse aliases ast b t) : Parses parse aliases ast := fun _ hc => h.reaches hc ▸ ⟨t, h.body⟩

theorem coveredAll (h : Single parse aliases ast b t) (hast : Covered parse aliases ast) (ht : Covered parse aliases t) :
    CoveredAll parse aliases ast := by
  refine ⟨hast, fun c u hc hu => ?_⟩
  rw [h.reaches hc, h.body] at hu
  cases hu
  exact ht

end Single
end

theorem callField_single : Single (Parser.parseSource Lexer.integralNumerals) [("m", "f(x)")] (.fieldAccess "m" "s") "m"
    (.call "f" [.identifier "x"] [none]) := ⟨rfl, rfl, rfl⟩

theorem element_single : Single (Parser.parseSource Lexer.integralNumerals) [("a", "x")] (.array [.identifier "a"]) "a"
    (.identifier "x") := ⟨rfl, rfl, rfl⟩

end Cxpr.Alias
