import Cxpr.Eval.Agree
import Cxpr.Lib.DepthFirst

/-! Sets of named expressions as C declarations (`cxpr_exprset_to_c` in `src/codegen.c`): a depth-first search orders them
    by the names they mention. The search sees the first 64 names of an expression, none in the base of a field access,
    and no mention of the expression's own name. -/

namespace Cxpr
open Relation
variable {D : Type}

namespace Ast

mutual

/-- Every name that an expression mentions, those in the base of a field access too. -/
def allMentions : Ast D → List String
  | .identifier name => [name]
  | .fieldAccess object field => [fullKey [object, field]]
  | .chainAccess path => [fullKey path]
  | .array es => allMentionsList es
  | .record _ values => allMentionsList values
  | .fieldOf base _ => allMentions base
  | .binary _ l r => allMentions l ++ allMentions r
  | .unary _ a => allMentions a
  | .call _ args _ => allMentionsList args
  | .producerAccess _ args _ _ => allMentionsList args
  | .index t i => allMentions t ++ allMentions i
  | .ternary c t e => allMentions c ++ allMentions t ++ allMentions e
  | .number _ | .int64 _ | .bool _ | .string _ | .param _ => []

def allMentionsList : List (Ast D) → List String
  | [] => []
  | a :: as => allMentions a ++ allMentionsList as

end

theorem append_mono {l l' r r' : List String} (hl : l ⊆ l') (hr : r ⊆ r') : l ++ r ⊆ l' ++ r' :=
  List.append_subset.mpr ⟨List.subset_append_of_subset_left _ hl, List.subset_append_of_subset_right _ hr⟩

mutual

theorem mentions_subset : ∀ ast : Ast D, mentions ast ⊆ allMentions ast
  | .identifier _ | .fieldAccess _ _ | .chainAccess _ => fun _ h => h
  | .array es | .record _ es | .call _ es _ | .producerAccess _ es _ _ => mentionsList_subset es
  | .binary _ l r => append_mono (mentions_subset l) (mentions_subset r)
  | .index l r => append_mono (mentions_subset l) (mentions_subset r)
  | .unary _ a => mentions_subset a
  | .ternary c t e =>
    append_mono (append_mono (mentions_subset c) (mentions_subset t)) (mentions_subset e)
  | .number _ | .int64 _ | .bool _ | .string _ | .param _ | .fieldOf _ _ => fun _ h => (List.not_mem_nil h).elim

theorem mentionsList_subset : ∀ as : List (Ast D), mentionsList as ⊆ allMentionsList as
  | [] => fun _ h => h
  | a :: as => append_mono (mentions_subset a) (mentionsList_subset as)

end

/-- `cxpr_add_unique_name`. -/
def addUniqueNameUpTo (max : Nat) (names : List String) (name : String) : List String :=
  if name ∈ names then names else if names.length < max then names ++ [name] else names

/-- The names that `cxpr_expr_ast_references` stores in an array of a size. -/
def referencesUpTo (max : Nat) (ast : Ast D) : List String := (mentions ast).foldl (addUniqueNameUpTo max) []

theorem foldl_addUniqueNameUpTo_subset (max : Nat) (names acc : List String) :
    names.foldl (addUniqueNameUpTo max) acc ⊆ acc ++ names := by
  induction names generalizing acc with
  | nil => simp
  | cons first rest ih =>
    intro name hname
    have hmem := ih (addUniqueNameUpTo max acc first) hname
    unfold addUniqueNameUpTo at hmem
    split at hmem
    · rcases List.mem_append.mp hmem with hacc | hrest
      · exact List.mem_append_left _ hacc
      · exact List.mem_append_right _ (List.mem_cons_of_mem _ hrest)
    · split at hmem
      · simpa using hmem
      · rcases List.mem_append.mp hmem with hacc | hrest
        · exact List.mem_append_left _ hacc
        · exact List.mem_append_right _ (List.mem_cons_of_mem _ hrest)

theorem referencesUpTo_subset (max : Nat) (ast : Ast D) : referencesUpTo max ast ⊆ allMentions ast := fun _ h =>
  mentions_subset ast (by simpa using foldl_addUniqueNameUpTo_subset max (mentions ast) [] h)

end Ast

namespace Codegen

/-! ### Declarations -/

structure NamedExpr (D : Type) where
  name : String
  ast : Ast D

def maxRefs : Nat := 64

def maxExprs : Nat := 256

def NamedExpr.refs (e : NamedExpr D) : List String := e.ast.referencesUpTo maxRefs

def successors (exprs : List (NamedExpr D)) (i : Nat) : List Nat :=
  (exprs[i]?.elim [] (·.refs)).flatMap fun ref => (List.range exprs.length).filter fun j => exprs[j]?.any (·.name == ref)

inductive SetFailure where
  | tooMany
  | circular
  | emission (error : Error)

def SetFailure.error : SetFailure → Error
  | .tooMany => ⟨.syntaxError, "too many expressions for codegen (max 256)"⟩
  | .circular => ⟨.circularDependency, "dependency cycle among expressions"⟩
  | .emission error => error

abbrev Declaration (D : Type) := NamedExpr D × String

def Declaration.line (declType : String) (declared : Declaration D) : String :=
  declType ++ " " ++ declared.1.name ++ " = " ++ declared.2 ++ ";\n"

section
variable (emit : Ast D → Except Error String) (declType : String)

/-- The declaration of an expression; `emit` is `cxpr_expr_ast_to_c`. -/
def declaration (e : NamedExpr D) : Except SetFailure (Declaration D) :=
  match emit e.ast with
  | .ok text => .ok (e, text)
  | .error error => .error (.emission error)

/-- The declarations that `cxpr_exprset_to_c` emits, one after the other; `none` if it does not come to an end. -/
def exprsetDeclarations (exprs : List (NamedExpr D)) : Option (Except SetFailure (List (Declaration D))) :=
  if exprs.length = 0 then some (.ok [])
  else if maxExprs < exprs.length then some (.error .tooMany)
  else
    match DepthFirst.sort (successors exprs) exprs.length with
    | .exhausted => none
    | .cycle => some (.error .circular)
    | .finished order => some ((order.filterMap (exprs[·]?)).mapM (declaration emit))

def exprsetToC (exprs : List (NamedExpr D)) : Option (Except SetFailure String) :=
  (exprsetDeclarations emit exprs).map (·.map fun declared => String.join (declared.map (Declaration.line declType)))

def Mentions (exprs : List (NamedExpr D)) (a b : String) : Prop :=
  (∃ e ∈ exprs, e.name = a ∧ b ∈ e.ast.allMentions) ∧ b ∈ exprs.map (·.name)

def Sees (exprs : List (NamedExpr D)) (a b : String) : Prop :=
  (∃ e ∈ exprs, e.name = a ∧ b ∈ e.refs) ∧ b ∈ exprs.map (·.name) ∧ b ≠ a

def Cyclic (r : String → String → Prop) : Prop := ∃ a, TransGen r a a

/-- The declarations are those of the expressions in an order in which each comes after all that it mentions. -/
def Ordered (exprs sorted : List (NamedExpr D)) : Prop :=
  sorted.Perm exprs ∧ ∀ before e after, sorted = before ++ e :: after →
    ∀ b, Mentions exprs e.name b → b ∈ before.map (·.name)

/-- It comes to an end, with a circular dependency if and only if there is one, and otherwise with the declarations in
    order if all of them can be emitted. -/
def Correct (exprs : List (NamedExpr D)) : Prop :=
  ∃ result, exprsetDeclarations emit exprs = some result ∧
    exprsetToC emit declType exprs =
      some (result.map fun declared => String.join (declared.map (Declaration.line declType))) ∧
    (result = .error .circular ↔ Cyclic (Mentions exprs)) ∧
    (¬ Cyclic (Mentions exprs) → (∀ e ∈ exprs, ∃ text, emit e.ast = .ok text) →
      ∃ declared, result = .ok declared ∧ Ordered exprs (declared.map (·.1)))

end

/-! ### Names and indices -/

section
variable {exprs : List (NamedExpr D)}

def nameAt (exprs : List (NamedExpr D)) (i : Nat) : String := exprs[i]?.elim "" (·.name)

def indexOf (exprs : List (NamedExpr D)) (a : String) : Nat := (exprs.map (·.name)).idxOf a

variable {e : NamedExpr D} {a b : String}

theorem nameAt_of_getElem? {i : Nat} (h : exprs[i]? = some e) : nameAt exprs i = e.name := by
  rw [nameAt, h]
  rfl

theorem indexOf_lt (h : a ∈ exprs.map (·.name)) : indexOf exprs a < exprs.length := by
  simpa [indexOf] using List.idxOf_lt_length_of_mem h

theorem nameAt_indexOf (h : a ∈ exprs.map (·.name)) : nameAt exprs (indexOf exprs a) = a := by
  have hlt := indexOf_lt h
  have hget : (exprs.map (·.name))[indexOf exprs a]? = some a := by
    rw [List.getElem?_eq_getElem (by simpa using hlt)]
    exact congrArg some (List.getElem_idxOf _)
  rw [List.getElem?_map] at hget
  obtain ⟨e, he, rfl⟩ := Option.map_eq_some_iff.mp hget
  exact nameAt_of_getElem? he

theorem indexOf_nameAt (hnodup : (exprs.map (·.name)).Nodup) {i : Nat} (hi : i < exprs.length) :
    indexOf exprs (nameAt exprs i) = i := by
  have hname : nameAt exprs i = (exprs.map (·.name)).get ⟨i, by simpa using hi⟩ := by
    simp [nameAt, List.getElem?_eq_getElem hi]
  rw [indexOf, hname]
  exact hnodup.idxOf_getElem i _

theorem successors_lt {i j : Nat} (h : j ∈ successors exprs i) : j < exprs.length := by
  obtain ⟨ref, -, hj⟩ := List.mem_flatMap.mp h
  exact List.mem_range.mp (List.mem_filter.mp hj).1

theorem sees_of_edge (hnodup : (exprs.map (·.name)).Nodup) {i j : Nat} (h : DepthFirst.Edge (successors exprs) i j) :
    Sees exprs (nameAt exprs i) (nameAt exprs j) := by
  obtain ⟨hmem, hne⟩ := h
  have hj := successors_lt hmem
  obtain ⟨ref, href, hfilter⟩ := List.mem_flatMap.mp hmem
  cases hi : exprs[i]? with
  | none =>
    rw [hi] at href
    cases href
  | some e =>
    rw [hi] at href
    obtain ⟨-, hname⟩ := List.mem_filter.mp hfilter
    rw [List.getElem?_eq_getElem hj] at hname
    obtain rfl : exprs[j].name = ref := by simpa using hname
    have hnamej := nameAt_of_getElem? (List.getElem?_eq_getElem hj)
    have hlt : i < exprs.length := (List.getElem?_eq_some_iff.mp hi).1
    refine ⟨⟨e, List.mem_of_getElem? hi, (nameAt_of_getElem? hi).symm, by rw [hnamej]; exact href⟩, ?_, fun heq => hne ?_⟩
    · rw [hnamej]
      exact List.mem_map_of_mem (List.getElem_mem hj)
    · rw [← indexOf_nameAt hnodup hj, heq, indexOf_nameAt hnodup hlt]

theorem edge_of_sees (hnodup : (exprs.map (·.name)).Nodup) (h : Sees exprs a b) :
    DepthFirst.Edge (successors exprs) (indexOf exprs a) (indexOf exprs b) := by
  obtain ⟨⟨e, he, rfl, href⟩, hb, hne⟩ := h
  obtain ⟨i, hi, rfl⟩ := List.getElem_of_mem he
  have hindex : indexOf exprs exprs[i].name = i := by
    have hname := nameAt_of_getElem? (List.getElem?_eq_getElem hi)
    rw [← hname, indexOf_nameAt hnodup hi]
  have hlt := indexOf_lt hb
  have hname := nameAt_indexOf hb
  rw [nameAt, List.getElem?_eq_getElem hlt] at hname
  constructor
  · rw [hindex]
    refine List.mem_flatMap.mpr ⟨b, by rw [List.getElem?_eq_getElem hi]; exact href, ?_⟩
    refine List.mem_filter.mpr ⟨List.mem_range.mpr hlt, ?_⟩
    rw [List.getElem?_eq_getElem hlt]
    simpa using hname
  · intro heq
    have ha : exprs[i].name ∈ exprs.map (·.name) := List.mem_map_of_mem he
    exact hne (by rw [← nameAt_indexOf hb, heq, nameAt_indexOf ha])

theorem cyclic_sees_iff (hnodup : (exprs.map (·.name)).Nodup) :
    (∃ j < exprs.length, TransGen (DepthFirst.Edge (successors exprs)) j j) ↔ Cyclic (Sees exprs) := by
  constructor
  · rintro ⟨j, -, hcycle⟩
    exact ⟨nameAt exprs j, hcycle.lift (nameAt exprs) fun _ _ h => sees_of_edge hnodup h⟩
  · rintro ⟨a, hcycle⟩
    have ha : a ∈ exprs.map (·.name) := by
      obtain ⟨b, -, hlast⟩ := TransGen.tail'_iff.mp hcycle
      exact hlast.2.1
    exact ⟨indexOf exprs a, indexOf_lt ha, hcycle.lift (indexOf exprs) fun _ _ h => edge_of_sees hnodup h⟩

theorem mentions_of_sees (h : Sees exprs a b) : Mentions exprs a b := by
  obtain ⟨⟨e, he, hname, href⟩, hb, -⟩ := h
  exact ⟨⟨e, he, hname, Ast.referencesUpTo_subset _ _ href⟩, hb⟩

theorem cyclic_mentions_of_sees (h : Cyclic (Sees exprs)) : Cyclic (Mentions exprs) := by
  obtain ⟨a, hcycle⟩ := h
  exact ⟨a, TransGen.mono (fun _ _ h => mentions_of_sees h) _ _ hcycle⟩

theorem filterMap_range_getElem? (l : List (NamedExpr D)) : (List.range l.length).filterMap (l[·]?) = l := by
  induction l using List.reverseRecOn with
  | nil => rfl
  | append_singleton l e ih =>
    rw [List.length_append, List.length_singleton, List.range_succ, List.filterMap_append]
    have hfront : (List.range l.length).filterMap ((l ++ [e])[·]?) = (List.range l.length).filterMap (l[·]?) :=
      List.filterMap_congr fun i hi => List.getElem?_append_left (List.mem_range.mp hi)
    rw [hfront, ih]
    simp

theorem mem_before {order : List Nat} (hnodup : (exprs.map (·.name)).Nodup) (hsorted : DepthFirst.Sorted (successors exprs) order)
    {before after : List (NamedExpr D)} (heq : order.filterMap (exprs[·]?) = before ++ e :: after) (hb : TransGen (Sees exprs) e.name b) : b ∈ before.map (·.name) := by
  obtain ⟨front, back, rfl, rfl, hback⟩ := List.filterMap_eq_append_iff.mp heq
  obtain ⟨skipped, i, rest, rfl, hskipped, hi, -⟩ := List.filterMap_eq_cons_iff.mp hback
  have hname := nameAt_of_getElem? hi
  have hlt : i < exprs.length := (List.getElem?_eq_some_iff.mp hi).1
  have hpath : TransGen (DepthFirst.Edge (successors exprs)) (indexOf exprs e.name) (indexOf exprs b) :=
    hb.lift (indexOf exprs) fun _ _ h => edge_of_sees hnodup h
  rw [← hname, indexOf_nameAt hnodup hlt] at hpath
  have hmem := hsorted.before hpath (front ++ skipped) rest (by simp)
  have hbmem : b ∈ exprs.map (·.name) := by
    obtain ⟨c, -, hlast⟩ := TransGen.tail'_iff.mp hb
    exact hlast.2.1
  obtain ⟨e', hget⟩ : ∃ e', exprs[indexOf exprs b]? = some e' := ⟨_, List.getElem?_eq_getElem (indexOf_lt hbmem)⟩
  have hfront : indexOf exprs b ∈ front := by
    rcases List.mem_append.mp hmem with hfront | hskip
    · exact hfront
    · rw [hskipped _ hskip] at hget
      cases hget
  refine List.mem_map.mpr ⟨e', List.mem_filterMap.mpr ⟨_, hfront, hget⟩, ?_⟩
  rw [← nameAt_of_getElem? hget, nameAt_indexOf hbmem]

variable {emit : Ast D → Except Error String} {declType : String}

theorem exprsetDeclarations_spec (emit : Ast D → Except Error String) (hnodup : (exprs.map (·.name)).Nodup)
    (hcount : exprs.length ≤ maxExprs) :
    (exprsetDeclarations emit exprs = some (.error .circular) ∧ Cyclic (Sees exprs)) ∨
      ∃ sorted, exprsetDeclarations emit exprs = some (sorted.mapM (declaration emit)) ∧ ¬ Cyclic (Sees exprs) ∧
        sorted.Perm exprs ∧ ∀ before e after, sorted = before ++ e :: after →
          ∀ b, TransGen (Sees exprs) e.name b → b ∈ before.map (·.name) := by
  unfold exprsetDeclarations
  by_cases hzero : exprs.length = 0
  · rw [if_pos hzero]
    obtain rfl := List.length_eq_zero_iff.mp hzero
    refine .inr ⟨[], rfl, ?_, .refl _, fun before e after heq => by simp at heq⟩
    rintro ⟨a, hcycle⟩
    obtain ⟨b, -, hlast⟩ := TransGen.tail'_iff.mp hcycle
    exact List.not_mem_nil hlast.2.1
  · rw [if_neg hzero, if_neg (Nat.not_lt.mpr hcount)]
    have hedges : ∀ i < exprs.length, ∀ j ∈ successors exprs i, j < exprs.length := fun _ _ _ h => successors_lt h
    rcases DepthFirst.sort_spec hedges with ⟨hsort, hcycle⟩ | ⟨order, hsort, hperm, hsorted⟩
    · rw [hsort]
      exact .inl ⟨rfl, (cyclic_sees_iff hnodup).mp hcycle⟩
    · rw [hsort]
      refine .inr ⟨_, rfl, fun hcycle => ?_, ?_, fun before e after heq b hb => mem_before hnodup hsorted heq hb⟩
      · have := (DepthFirst.sort_eq_cycle_iff hedges).mpr ((cyclic_sees_iff hnodup).mpr hcycle)
        rw [hsort] at this
        cases this
      · have hfilter := hperm.filterMap (exprs[·]?)
        rwa [filterMap_range_getElem?] at hfilter

theorem mapM_declaration (emit : Ast D → Except Error String) (sorted : List (NamedExpr D)) :
    (∃ declared, sorted.mapM (declaration emit) = .ok declared ∧ declared.map (·.1) = sorted) ∨
      ∃ e ∈ sorted, ∃ error, emit e.ast = .error error ∧ sorted.mapM (declaration emit) = .error (.emission error) := by
  induction sorted with
  | nil => exact .inl ⟨[], rfl, rfl⟩
  | cons e sorted ih =>
    rw [List.mapM_cons]
    cases hemit : emit e.ast with
    | error error => exact .inr ⟨e, List.mem_cons_self, error, hemit, by rw [declaration, hemit]; rfl⟩
    | ok text =>
      rcases ih with ⟨declared, hdeclared, hsorted⟩ | ⟨e', he', error, herror, hdeclared⟩
      · exact .inl ⟨(e, text) :: declared, by rw [declaration, hemit, hdeclared]; rfl, by rw [List.map_cons, hsorted]⟩
      · exact .inr ⟨e', List.mem_cons_of_mem e he', error, herror, by rw [declaration, hemit, hdeclared]; rfl⟩

theorem mapM_declaration_ne_circular (sorted : List (NamedExpr D)) : sorted.mapM (declaration emit) ≠ .error .circular := by
  intro hcircular
  rcases mapM_declaration emit sorted with ⟨declared, hdeclared, -⟩ | ⟨e, -, error, -, herror⟩
  · rw [hdeclared] at hcircular
    cases hcircular
  · rw [herror] at hcircular
    cases hcircular

theorem exprsetToC_eq {result : Except SetFailure (List (Declaration D))} (h : exprsetDeclarations emit exprs = some result) :
    exprsetToC emit declType exprs =
      some (result.map fun declared => String.join (declared.map (Declaration.line declType))) := by
  rw [exprsetToC, h]
  rfl

/-- The names that the search sees lead wherever the mentions do, or they have a cycle; or there is no cycle at all and
    some expression cannot be emitted. -/
def Covered (emit : Ast D → Except Error String) (exprs : List (NamedExpr D)) : Prop :=
  Cyclic (Sees exprs) ∨ (∀ a b, Mentions exprs a b → TransGen (Sees exprs) a b) ∨
    ¬ Cyclic (Mentions exprs) ∧ ∃ e ∈ exprs, ∀ text, emit e.ast ≠ .ok text

theorem correct_of_covered (hnodup : (exprs.map (·.name)).Nodup) (hcount : exprs.length ≤ maxExprs)
    (h : Covered emit exprs) : Correct emit declType exprs := by
  rcases exprsetDeclarations_spec emit hnodup hcount with
    ⟨hresult, hcycle⟩ | ⟨sorted, hresult, hacyclic, hperm, hbefore⟩
  · have hmentions := cyclic_mentions_of_sees hcycle
    exact ⟨_, hresult, exprsetToC_eq hresult, ⟨fun _ => hmentions, fun _ => rfl⟩, fun hno => absurd hmentions hno⟩
  · have hno : ¬ Cyclic (Mentions exprs) := by
      rcases h with hcycle | hcovered | ⟨hno, -⟩
      · exact absurd hcycle hacyclic
      · rintro ⟨a, hcycle⟩
        exact hacyclic ⟨a, TransGen.closed hcovered _ _ hcycle⟩
      · exact hno
    refine ⟨_, hresult, exprsetToC_eq hresult, ⟨fun hcircular => absurd hcircular (mapM_declaration_ne_circular sorted),
      fun hcycle => absurd hcycle hno⟩, fun _ hemits => ?_⟩
    rcases mapM_declaration emit sorted with ⟨declared, hdeclared, rfl⟩ | ⟨e, he, error, herror, -⟩
    · refine ⟨declared, hdeclared, hperm, fun before e after heq b hb => ?_⟩
      rcases h with hcycle | hcovered | ⟨-, e', he', hfails⟩
      · exact absurd hcycle hacyclic
      · exact hbefore before e after heq b (hcovered _ _ hb)
      · obtain ⟨text, htext⟩ := hemits e' he'
        exact absurd htext (hfails text)
    · obtain ⟨text, htext⟩ := hemits e (hperm.mem_iff.mp he)
      rw [htext] at herror
      cases herror

theorem exists_order {exprs : List (NamedExpr D)} (hne : exprs ≠ []) (hcount : exprs.length ≤ maxExprs)
    {declared : List (Declaration D)} (h : exprsetDeclarations emit exprs = some (.ok declared)) :
    ∃ order, DepthFirst.sort (successors exprs) exprs.length = .finished order ∧
      declared.map (·.1) = order.filterMap (exprs[·]?) := by
  unfold exprsetDeclarations at h
  rw [if_neg (fun hzero => hne (List.length_eq_zero_iff.mp hzero)), if_neg (Nat.not_lt.mpr hcount)] at h
  cases hsort : DepthFirst.sort (successors exprs) exprs.length with
  | exhausted =>
    rw [hsort] at h
    cases h
  | cycle =>
    rw [hsort] at h
    cases h
  | finished order =>
    rw [hsort] at h
    have hdeclared := Option.some.inj h
    rcases mapM_declaration emit (order.filterMap (exprs[·]?)) with ⟨declared', hok, hmap⟩ | ⟨e, -, error, -, herror⟩
    · rw [hok] at hdeclared
      cases hdeclared
      exact ⟨order, rfl, hmap⟩
    · rw [herror] at hdeclared
      cases hdeclared

theorem reached_of_first {rest : List (NamedExpr D)} (hnodup : ((e :: rest).map (·.name)).Nodup)
    (hcount : (e :: rest).length ≤ maxExprs) {declared : List (Declaration D)}
    (h : exprsetDeclarations emit (e :: rest) = some (.ok declared)) {before after : List (NamedExpr D)}
    (heq : declared.map (·.1) = before ++ e :: after) (hperm : (declared.map (·.1)).Perm (e :: rest))
    (hb : b ∈ before.map (·.name)) : TransGen (Sees (e :: rest)) e.name b := by
  obtain ⟨order, hsort, hdeclared⟩ := exists_order (List.cons_ne_nil e rest) hcount h
  have hedges : ∀ i < rest.length + 1, ∀ j ∈ successors (e :: rest) i, j < rest.length + 1 := fun _ _ _ h => successors_lt h
  obtain ⟨front, back, rfl, hzero, hreached⟩ := DepthFirst.sort_first hedges hsort
  have hfirst : e ∈ front.filterMap ((e :: rest)[·]?) := List.mem_filterMap.mpr ⟨0, hzero, rfl⟩
  obtain ⟨front₁, front₂, hfront⟩ := List.append_of_mem hfirst
  rw [List.filterMap_append, hfront, List.append_assoc, List.cons_append] at hdeclared
  have hdistinct : (front₁ ++ e :: (front₂ ++ back.filterMap ((e :: rest)[·]?))).Nodup := by
    rw [← hdeclared]
    exact hperm.nodup_iff.mpr hnodup.of_map
  have hfront₁ : e ∉ front₁ := fun hmem => List.disjoint_of_nodup_append hdistinct hmem List.mem_cons_self
  have hbehind : e ∉ front₂ ++ back.filterMap ((e :: rest)[·]?) := (List.nodup_cons.mp hdistinct.of_append_right).1
  obtain ⟨rfl, -, -⟩ := (List.append_cons_inj_of_notMem hfront₁ hbehind).mp (hdeclared.symm.trans heq)
  obtain ⟨e', he', rfl⟩ := List.mem_map.mp hb
  obtain ⟨k, hk, hget⟩ := List.mem_filterMap.mp (hfront ▸ List.mem_append_left (e :: front₂) he')
  have hname : nameAt (e :: rest) k = e'.name := nameAt_of_getElem? hget
  rcases reflTransGen_iff_eq_or_transGen.mp (hreached k hk) with rfl | hpath
  · obtain rfl : e = e' := by simpa using hget
    exact absurd he' hfront₁
  · have hsees : TransGen (Sees (e :: rest)) (nameAt (e :: rest) 0) (nameAt (e :: rest) k) :=
      hpath.lift (nameAt (e :: rest)) fun _ _ h => sees_of_edge hnodup h
    rwa [hname] at hsees

theorem mentions_perm {exprs' : List (NamedExpr D)} (h : exprs'.Perm exprs) : Mentions exprs' = Mentions exprs := by
  funext a b
  simp only [Mentions, h.mem_iff, (h.map (·.name)).mem_iff]

theorem sees_perm {exprs' : List (NamedExpr D)} (h : exprs'.Perm exprs) : Sees exprs' = Sees exprs := by
  funext a b
  simp only [Sees, h.mem_iff, (h.map (·.name)).mem_iff]

theorem covered_of_correct (hnodup : (exprs.map (·.name)).Nodup) (hcount : exprs.length ≤ maxExprs)
    (h : ∀ exprs', exprs'.Perm exprs → Correct emit declType exprs') : Covered emit exprs := by
  by_contra hnot
  simp only [Covered, not_or, not_and, not_forall, not_exists] at hnot
  obtain ⟨hacyclic, ⟨a, b, hab, hunseen⟩, hfails⟩ := hnot
  -- the search sees no cycle, so there is none
  obtain ⟨result, hresult, -, hcircular, -⟩ := h exprs (.refl _)
  have hno : ¬ Cyclic (Mentions exprs) := by
    rcases exprsetDeclarations_spec emit hnodup hcount with ⟨-, hcycle⟩ | ⟨sorted, hsorted, -⟩
    · exact absurd hcycle hacyclic
    · rw [hsorted] at hresult
      cases hresult
      exact fun hcycle => mapM_declaration_ne_circular sorted (hcircular.mpr hcycle)
  have hemits : ∀ e ∈ exprs, ∃ text, emit e.ast = .ok text := fun e he => by
    simpa using hfails hno e he
  -- with the expression in front, what it mentions unseen comes after it
  obtain ⟨⟨e, he, rfl, -⟩, -⟩ := id hab
  obtain ⟨l₁, l₂, rfl⟩ := List.append_of_mem he
  have hperm : (e :: (l₁ ++ l₂)).Perm (l₁ ++ e :: l₂) := List.perm_middle.symm
  obtain ⟨result', hresult', -, -, hdeclared⟩ := h _ hperm
  rw [mentions_perm hperm] at hdeclared
  obtain ⟨declared, rfl, hperm', hbefore⟩ := hdeclared hno fun e' he' => hemits e' (hperm.mem_iff.mp he')
  obtain ⟨before, after, hsplit⟩ := List.append_of_mem (hperm'.mem_iff.mpr List.mem_cons_self)
  have hmem := hbefore before e after hsplit b (by rwa [mentions_perm hperm])
  have hpath := reached_of_first ((hperm.map _).nodup_iff.mpr hnodup) (by rwa [hperm.length_eq]) hresult' hsplit hperm' hmem
  rw [sees_perm hperm] at hpath
  exact hunseen hpath

/-- At most 256 expressions with distinct names are declared as they should be, in whatever order they are given, exactly
    when they are covered. -/
theorem exprset_ordered_iff (emit : Ast D → Except Error String) (declType : String) (hnodup : (exprs.map (·.name)).Nodup)
    (hcount : exprs.length ≤ 256) :
    (∀ exprs', exprs'.Perm exprs → Correct emit declType exprs') ↔ Covered emit exprs := by
  refine ⟨covered_of_correct hnodup hcount, fun h exprs' hperm => ?_⟩
  refine correct_of_covered ((hperm.map _).nodup_iff.mpr hnodup) (by rwa [hperm.length_eq]) ?_
  simpa only [Covered, mentions_perm hperm, sees_perm hperm, hperm.mem_iff] using h

end

/-- `a = b` and `b = true`. -/
def chained : List (NamedExpr Unit) := [⟨"a", .identifier "b"⟩, ⟨"b", .bool true⟩]

theorem chained_ordered : Correct (fun _ => .ok "b") "bool" chained := by
  refine (exprset_ordered_iff _ _ (by decide) (by decide)).mpr (.inr (.inl fun a b => ?_)) chained (.refl chained)
  rintro ⟨⟨e, he, rfl, hb⟩, hname⟩
  rcases List.mem_cons.mp he with rfl | he
  · obtain rfl : b = "b" := List.mem_singleton.mp hb
    exact .single ⟨⟨_, List.mem_cons_self, rfl, List.mem_cons_self⟩, by decide, by decide⟩
  · rw [List.mem_singleton.mp he] at hb
    cases hb

/-- `x = x`. -/
def selfNamed : List (NamedExpr Unit) := [⟨"x", .identifier "x"⟩]

/-- An expression that mentions its own name is declared, and no circular dependency is reported. -/
theorem selfNamed_declared : Cyclic (Mentions selfNamed) ∧
    exprsetToC (fun _ => .ok "x") "double" selfNamed = some (.ok "double x = x;\n") ∧
    ¬ Correct (fun _ => .ok "x") "double" selfNamed := by
  have hcycle : Cyclic (Mentions selfNamed) :=
    ⟨"x", .single ⟨⟨_, List.mem_cons_self, rfl, List.mem_cons_self⟩, by decide⟩⟩
  have hdeclared : exprsetDeclarations (fun _ => .ok "x") selfNamed = some (.ok [(⟨"x", .identifier "x"⟩, "x")]) := rfl
  refine ⟨hcycle, by rw [exprsetToC_eq hdeclared]; rfl, ?_⟩
  rintro ⟨result, hresult, -, hcircular, -⟩
  rw [hdeclared] at hresult
  cases hresult
  cases hcircular.mpr hcycle

end Codegen
end Cxpr
