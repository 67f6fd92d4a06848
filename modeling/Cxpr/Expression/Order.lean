import Cxpr.Codegen.ExprSet
import Cxpr.Completeness
import Cxpr.Expression.Evaluator
import Cxpr.Lib.Marking
import Cxpr.Lib.TopoSort
import Mathlib.Algebra.BigOperators.Group.Finset.Basic

/-! The order of named expressions (`src/expression`): an evaluator sorts them by the names that they refer to, and an
    evaluation goes through them in that order. -/

namespace Cxpr.Expression
open Relation
variable {D : Type}

/-- What an entry is sorted by. -/
structure Named (D : Type) where
  name : String
  ast : Ast D

/-- `cxpr_expression_reference_matches_name`. -/
def referenceMatchesName (reference name : String) : Bool :=
  reference == name || (name ++ ".").toList.isPrefixOf reference.toList

/-- `cxpr_expression_depends_on`: no more than 256 references of an expression are seen. -/
def dependsOn (exprs : List (Named D)) (i j : Nat) : Bool :=
  exprs[i]?.any fun e => exprs[j]?.any fun d => (e.ast.referencesUpTo 256).any (referenceMatchesName · d.name)

def circularDependency : Error := ⟨.circularDependency, "Circular dependency detected"⟩

/-- `cxpr_expression_topo_sort`. -/
def topoSort (exprs : List (Named D)) : Except Error (List Nat) :=
  (TopoSort.sort (dependsOn exprs) exprs.length).elim (.error circularDependency) .ok

/-- `cxpr_expression_wrap_compile_error`. -/
def wrapCompileError (e : Named D) (err : Error) : Error :=
  { err with message := s!"Expression '{e.name}': {err.message}" }

/-- An expression refers to another or to itself: by its name, or to a field of it. -/
def RefersTo (exprs : List (Named D)) (i j : Nat) : Prop :=
  ∃ e d, exprs[i]? = some e ∧ exprs[j]? = some d ∧
    ∃ reference ∈ e.ast.referencesUpTo 256, reference = d.name ∨ ∃ field, reference = d.name ++ "." ++ field

/-- Every expression once, behind all that it refers to. -/
def Ordered (exprs : List (Named D)) (order : List Nat) : Prop :=
  order.Perm (List.range exprs.length) ∧
    ∀ before i after, order = before ++ i :: after → ∀ j, RefersTo exprs i j → j ∈ before

variable {exprs : List (Named D)} {i j : Nat}

theorem referenceMatchesName_iff {reference name : String} :
    referenceMatchesName reference name = true ↔ reference = name ∨ ∃ field, reference = name ++ "." ++ field := by
  rw [referenceMatchesName, Bool.or_eq_true, beq_iff_eq, List.isPrefixOf_iff_prefix]
  refine or_congr_right ⟨fun ⟨rest, hrest⟩ => ⟨String.ofList rest, String.ext ?_⟩, fun ⟨field, h⟩ => ⟨field.toList, ?_⟩⟩
  · rw [String.toList_append, String.toList_ofList]
    exact hrest.symm
  · simp only [h, String.toList_append]

theorem edge_iff : TopoSort.Edge (dependsOn exprs) exprs.length i j ↔ RefersTo exprs i j := by
  unfold TopoSort.Edge dependsOn RefersTo
  constructor
  · rintro ⟨⟨hi, hj⟩, hdep⟩
    rw [List.getElem?_eq_getElem hi, List.getElem?_eq_getElem hj, Option.any_some, Option.any_some, List.any_eq_true] at hdep
    obtain ⟨reference, hmem, hmatch⟩ := hdep
    exact ⟨_, _, List.getElem?_eq_getElem hi, List.getElem?_eq_getElem hj, reference, hmem,
      referenceMatchesName_iff.mp hmatch⟩
  · rintro ⟨e, d, hi, hj, reference, hmem, hmatch⟩
    refine ⟨⟨(List.getElem?_eq_some_iff.mp hi).1, (List.getElem?_eq_some_iff.mp hj).1⟩, ?_⟩
    rw [hi, hj, Option.any_some, Option.any_some, List.any_eq_true]
    exact ⟨reference, hmem, referenceMatchesName_iff.mpr hmatch⟩

theorem edge_eq (exprs : List (Named D)) : TopoSort.Edge (dependsOn exprs) exprs.length = RefersTo exprs :=
  funext fun _ => funext fun _ => propext edge_iff

theorem topoSort_spec (exprs : List (Named D)) :
    ((∃ i, TransGen (RefersTo exprs) i i) ∧ topoSort exprs = .error circularDependency) ∨
      ¬(∃ i, TransGen (RefersTo exprs) i i) ∧ ∃ order, topoSort exprs = .ok order ∧ Ordered exprs order := by
  have hspec := @TopoSort.sort_spec (dependsOn exprs) exprs.length
  unfold TopoSort.Cyclic TopoSort.Ordered at hspec
  rw [edge_eq] at hspec
  unfold topoSort
  rcases hspec with ⟨hnone, hcycle⟩ | ⟨order, hsome, hordered, hacyclic⟩
  · exact .inl ⟨hcycle, by rw [hnone]; rfl⟩
  · exact .inr ⟨hacyclic, order, by rw [hsome]; rfl, hordered⟩

/-! ### The order of declarations -/

theorem referencesUpTo_eq (max : Nat) (ast : Ast D) : ast.referencesUpTo max = (Ast.firsts ast.mentions).take max := by
  unfold Ast.referencesUpTo
  generalize ast.mentions = names
  induction names using List.reverseRecOn with
  | nil => exact List.take_nil.symm
  | append_singleton names x ih =>
    rw [List.foldl_concat, ih, Ast.firsts_append, Ast.addUniqueNameUpTo, Ast.addUniqueName]
    by_cases hstored : x ∈ (Ast.firsts names).take max
    · rw [if_pos hstored, if_pos (List.mem_of_mem_take hstored)]
    rw [if_neg hstored, List.length_take]
    by_cases hroom : (Ast.firsts names).length < max
    · have hall : (Ast.firsts names).take max = Ast.firsts names := List.take_of_length_le hroom.le
      rw [hall] at hstored ⊢
      rw [if_pos (by omega), if_neg hstored, List.take_of_length_le (by rw [List.length_append]; exact hroom)]
    · rw [if_neg (by omega)]
      split
      · rfl
      · exact (List.take_append_of_le_length (by omega)).symm

theorem referencesUpTo_mono {m m' : Nat} (h : m ≤ m') (ast : Ast D) : ast.referencesUpTo m ⊆ ast.referencesUpTo m' := by
  rw [referencesUpTo_eq, referencesUpTo_eq]
  exact (List.take_prefix_take_left h).subset

/-- The same expressions for `cxpr_exprset_to_c`. -/
def toSet (exprs : List (Named D)) : List (Codegen.NamedExpr D) := exprs.map fun e => ⟨e.name, e.ast⟩

theorem refersTo_of_edge (h : DepthFirst.Edge (Codegen.successors (toSet exprs)) i j) : RefersTo exprs i j := by
  obtain ⟨reference, href, hmem⟩ := List.mem_flatMap.mp h.1
  obtain ⟨-, hname⟩ := List.mem_filter.mp hmem
  rw [toSet, List.getElem?_map] at href hname
  cases hi : exprs[i]? with
  | none =>
    rw [hi] at href
    cases href
  | some e =>
    cases hj : exprs[j]? with
    | none =>
      rw [hj] at hname
      cases hname
    | some d =>
      rw [hi] at href
      rw [hj] at hname
      exact ⟨e, d, hi, hj, reference, referencesUpTo_mono (by decide) _ href,
        .inl (beq_iff_eq.mp hname).symm⟩

/-- `cxpr_exprset_to_c` finds no circle in expressions that an evaluator sorts: it sees fewer references, none to a field of
    a result and none of an expression to itself. -/
theorem exprset_follows_topoSort (emit : Ast D → Except Error String) (exprs : List (Named D)) :
    topoSort exprs = .error circularDependency ∨
      Codegen.exprsetDeclarations emit (toSet exprs) ≠ some (.error .circular) := by
  rcases topoSort_spec exprs with ⟨-, hsort⟩ | ⟨hacyclic, -⟩
  · exact .inl hsort
  refine .inr fun h => ?_
  unfold Codegen.exprsetDeclarations at h
  split at h
  · cases h
  split at h
  · cases h
  split at h
  · cases h
  · rename_i hcycle
    obtain ⟨i, -, hpath⟩ := (DepthFirst.sort_eq_cycle_iff fun _ _ _ hj => Codegen.successors_lt hj).mp hcycle
    exact hacyclic ⟨i, hpath.lift id fun _ _ => refersTo_of_edge⟩
  · exact Codegen.mapM_declaration_ne_circular _ (Option.some.inj h)

/-! ### Evaluation -/

def evaluatedAt (entries : List (Entry D)) (i : Nat) : Bool := entries[i]?.any (·.evaluated)

/-- What the evaluation of an entry sees: the results of those in front of it, as they stay, and no others. -/
def Sees (before : List Nat) (final seen : List (Entry D)) : Prop :=
  ∀ k, (k ∈ before → seen[k]? = final[k]?) ∧ (evaluatedAt seen k = true ↔ k ∈ before)

section
variable {σ : Type} {evalEntry : Nat → List (Entry D) → σ → Except Error (Value D) × σ} {entries final seen : List (Entry D)}
  {order : List Nat} {s s' : σ} {err : Option Error}

/-- An entry was evaluated, where it saw the ones in front of it. -/
def Computed (evalEntry : Nat → List (Entry D) → σ → Except Error (Value D) × σ) (final : List (Entry D)) (before : List Nat)
    (i : Nat) : Prop :=
  ∃ entry seen t t', final[i]? = some entry ∧ Sees before final seen ∧ evalEntry i seen t = (.ok entry.result, t') ∧
    supported entry.result = true

/-- The evaluation of an entry gave no result that can be kept. -/
def Failed (evalEntry : Nat → List (Entry D) → σ → Except Error (Value D) × σ) (final : List (Entry D)) (i : Nat)
    (code : ErrorCode) : Prop :=
  ∃ t t' outcome, evalEntry i final t = (outcome, t') ∧
    ((∃ error, outcome = .error error ∧ code = error.code) ∨
      ∃ value, outcome = .ok value ∧ supported value = false ∧ code = .typeMismatch)

theorem evaluatedAt_store (h : i < entries.length) (value : Value D) (k : Nat) :
    evaluatedAt (store entries i value) k = true ↔ k = i ∨ evaluatedAt entries k = true := by
  unfold evaluatedAt store
  by_cases hk : i = k
  · subst hk
    rw [List.getElem?_modify_eq, List.getElem?_eq_getElem h]
    simp
  · rw [List.getElem?_modify_ne _ _ hk]
    simp [Ne.symm hk]

/-- A run through `order` with the entries `before` it evaluated: it ends behind the last one, or at one that fails. -/
def Ran (evalEntry : Nat → List (Entry D) → σ → Except Error (Value D) × σ) (before order : List Nat)
    (final : List (Entry D)) (err : Option Error) : Prop :=
  ∃ done rest, order = done ++ rest ∧ (∀ k, evaluatedAt final k = true ↔ k ∈ before ++ done) ∧
    (∀ front i back, done = front ++ i :: back → Computed evalEntry final (before ++ front) i) ∧
    (err = none ∧ rest = [] ∨ ∃ i behind error, rest = i :: behind ∧ err = some error ∧ Failed evalEntry final i error.code)

theorem evalLoop_ran {before : List Nat} (hnodup : (before ++ order).Nodup) (hbound : ∀ i ∈ order, i < entries.length)
    (hbefore : ∀ k, evaluatedAt entries k = true ↔ k ∈ before) (h : evalLoop evalEntry order entries s = (err, final, s')) :
    Ran evalEntry before order final err ∧ ∀ k, k ∉ order → final[k]? = entries[k]? := by
  induction order generalizing before entries s with
  | nil =>
    cases h
    exact ⟨⟨[], [], rfl, fun k => by simpa using hbefore k, fun front i back h => by simp at h, .inl ⟨rfl, rfl⟩⟩,
      fun _ _ => rfl⟩
  | cons idx order ih =>
    have hidx := hbound idx List.mem_cons_self
    have hstop : ∀ error, (err, final, s') = (some error, entries, s') → Failed evalEntry entries idx error.code →
        Ran evalEntry before (idx :: order) final err ∧ ∀ k, k ∉ idx :: order → final[k]? = entries[k]? := by
      intro error heq hfailed
      cases heq
      exact ⟨⟨[], idx :: order, rfl, fun k => by simpa using hbefore k, fun front i back h => by simp at h,
        .inr ⟨idx, order, error, rfl, rfl, hfailed⟩⟩, fun _ _ => rfl⟩
    have hentry := List.getElem?_eq_getElem hidx
    unfold evalLoop at h
    rcases heval : evalEntry idx entries s with ⟨error | value, t⟩
    · rw [heval, hentry] at h
      obtain rfl : t = s' := congrArg (·.2.2) h
      exact hstop _ h.symm ⟨s, t, _, heval, .inl ⟨error, rfl, rfl⟩⟩
    · rw [heval, hentry] at h
      dsimp only at h
      split at h
      · rename_i hsupported
        have hnodup' : (before ++ [idx] ++ order).Nodup := by simpa using hnodup
        have hnew : idx ∉ order := (List.nodup_cons.mp (List.nodup_append.mp hnodup).2.1).1
        obtain ⟨⟨done, rest, rfl, hev, hcomputed, hend⟩, hkept⟩ := ih hnodup'
          (fun i hi => by simpa [store] using hbound i (List.mem_cons_of_mem _ hi))
          (fun k => by rw [evaluatedAt_store hidx, hbefore k]; simp [or_comm]) h
        have hsame : ∀ k, k ∉ idx :: (done ++ rest) → final[k]? = entries[k]? := by
          intro k hk
          rw [List.mem_cons, not_or] at hk
          rw [hkept k hk.2, store, List.getElem?_modify_ne _ _ (Ne.symm hk.1)]
        refine ⟨⟨idx :: done, rest, rfl, fun k => by simpa using hev k, ?_, hend⟩, hsame⟩
        intro front i back hsplit
        cases front with
        | nil =>
          obtain ⟨rfl, rfl⟩ := List.cons.inj hsplit
          have hfinal : final[idx]? = some { entries[idx] with result := value, evaluated := true } := by
            rw [hkept idx hnew, store, List.getElem?_modify_eq, hentry]
            rfl
          rw [List.append_nil]
          exact ⟨_, entries, s, t, hfinal, fun k => ⟨fun hk => (hsame k fun hmem =>
            (List.nodup_append.mp hnodup).2.2 k hk k hmem rfl).symm, hbefore k⟩, heval, hsupported⟩
        | cons first front =>
          obtain ⟨rfl, hrest⟩ := List.cons.inj hsplit
          have hrun := hcomputed front i back hrest
          rwa [List.append_assoc] at hrun
      · rename_i hsupported
        obtain rfl : t = s' := congrArg (·.2.2) h
        exact hstop _ h.symm ⟨s, t, _, heval, .inr ⟨value, rfl, by simpa using hsupported, rfl⟩⟩

theorem Ordered.of_topoSort (h : topoSort exprs = .ok order) : Ordered exprs order := by
  rcases topoSort_spec exprs with ⟨-, herror⟩ | ⟨-, order', hok, hordered⟩
  · cases h.symm.trans herror
  · cases h.symm.trans hok
    exact hordered

theorem evaluatorEval_ran [Double D] (hsort : topoSort exprs = .ok order)
    (evalEntry : Nat → List (Entry D) → σ → Except Error (Value D) × σ) (entries : List (Entry D))
    (hentries : entries.map (·.name) = exprs.map (·.name)) (s : σ) :
    Ran evalEntry [] order (evaluatorEval evalEntry order entries s).2.1 (evaluatorEval evalEntry order entries s).1 := by
  obtain ⟨hperm, -⟩ := Ordered.of_topoSort hsort
  have hlen : entries.length = exprs.length := by simpa using congrArg List.length hentries
  have hnodup : ([] ++ order).Nodup := hperm.nodup_iff.mpr List.nodup_range
  refine (@evalLoop_ran D σ evalEntry (clear entries) _ order s _ _ [] hnodup (fun i hi => ?_) (fun k => ?_) rfl).1
  · rw [clear, List.length_map, hlen]
    exact List.mem_range.mp (hperm.mem_iff.mp hi)
  · rw [evaluatedAt, clear, List.getElem?_map]
    cases entries[k]? <;> simp

end

/-! ### Evaluators -/

/-- `cxpr_evaluator`, without its programs and its parser. -/
structure Evaluator (D : Type) where
  exprs : List (Named D) := []
  entries : List (Entry D) := []
  order : List Nat := []
  compiled : Bool := false

namespace Evaluator
variable [Double D] (parse : String → Except Error (Ast D))

/-- `cxpr_expression_add`; `parse` is `cxpr_expr_ast_parse`. -/
def add (ev : Evaluator D) (name expression : String) : Option Error × Evaluator D :=
  match parse expression with
  | .error err => (some err, ev)
  | .ok ast =>
    (none, { ev with
      exprs := ev.exprs ++ [⟨name, ast⟩]
      entries := ev.entries ++ [⟨name, expression, .number Double.zero, false⟩]
      compiled := false })

/-- `cxpr_evaluator_truncate`. -/
def truncate (ev : Evaluator D) (count : Nat) : Evaluator D :=
  if ev.exprs.length ≤ count then ev
  else { ev with exprs := ev.exprs.take count, entries := ev.entries.take count, compiled := false }

/-- The loop of `cxpr_expressions_add`. -/
def addFrom (start : Nat) : Evaluator D → List (String × String) → Option Error × Evaluator D
  | ev, [] => (none, ev)
  | ev, (name, expression) :: defs =>
    match ev.add parse name expression with
    | (some err, ev) => (some err, ev.truncate start)
    | (none, ev) => addFrom start ev defs

/-- `cxpr_expressions_add`. -/
def addAll (ev : Evaluator D) (defs : List (String × String)) : Option Error × Evaluator D :=
  addFrom parse ev.exprs.length ev defs

/-- `cxpr_evaluator_compile`; `build` is the error of `cxpr_analyze` or `cxpr_expr_compile` on a tree. -/
def compile (build : Ast D → Option Error) (ev : Evaluator D) : Option Error × Evaluator D :=
  match topoSort ev.exprs with
  | .error err => (some err, ev)
  | .ok order =>
    match ev.exprs.findSome? fun e => (build e.ast).map (wrapCompileError e) with
    | some err => (some err, { ev with order, compiled := false })
    | none => (none, { ev with order, compiled := true })

variable {σ : Type}

/-- `cxpr_evaluator_eval`. -/
def eval (evalEntry : Nat → List (Entry D) → σ → Except Error (Value D) × σ) (ev : Evaluator D) (s : σ) :
    Option Error × Evaluator D :=
  if ev.compiled then
    let r := evaluatorEval evalEntry ev.order ev.entries s
    (r.1, { ev with entries := r.2.1 })
  else (some ⟨.syntaxError, "Evaluator not compiled"⟩, ev)

/-- A call. What compiles and what evaluates need not be the same from call to call. -/
inductive Op (D σ : Type) where
  | add (name expression : String)
  | addAll (defs : List (String × String))
  | compile (build : Ast D → Option Error)
  | eval (evalEntry : Nat → List (Entry D) → σ → Except Error (Value D) × σ) (s : σ)

def step (ev : Evaluator D) : Op D σ → Evaluator D
  | .add name expression => (ev.add parse name expression).2
  | .addAll defs => (ev.addAll parse defs).2
  | .compile build => (ev.compile build).2
  | .eval evalEntry s => (ev.eval evalEntry s).2

/-- An evaluator after calls, from `cxpr_evaluator_new` on. -/
def run (ops : List (Op D σ)) : Evaluator D := ops.foldl (step parse) {}

/-- What holds between two calls: an evaluator that counts as compiled has the order of the expressions it has now. -/
structure Inv (ev : Evaluator D) : Prop where
  names : ev.entries.map (·.name) = ev.exprs.map (·.name)
  sorted : ev.compiled = true → topoSort ev.exprs = .ok ev.order

variable {parse} {ev : Evaluator D}

theorem Inv.add (h : Inv ev) (name expression : String) : Inv (ev.add parse name expression).2 := by
  unfold Evaluator.add
  cases parse expression with
  | error err => exact h
  | ok ast => exact ⟨by simp [h.names], fun hc => by cases hc⟩

omit [Double D] in
theorem Inv.truncate (h : Inv ev) (count : Nat) : Inv (ev.truncate count) := by
  unfold Evaluator.truncate
  split
  · exact h
  · exact ⟨by simp only [List.map_take, h.names], fun hc => by cases hc⟩

theorem Inv.addFrom (h : Inv ev) (start : Nat) (defs : List (String × String)) : Inv (addFrom parse start ev defs).2 := by
  induction defs generalizing ev with
  | nil => exact h
  | cons d defs ih =>
    have hadd : Inv (ev.add parse d.1 d.2).2 := h.add d.1 d.2
    unfold Evaluator.addFrom
    rcases hturn : ev.add parse d.1 d.2 with ⟨_ | err, ev'⟩
    · rw [hturn] at hadd
      exact ih hadd
    · rw [hturn] at hadd
      exact hadd.truncate start

theorem Inv.step (h : Inv ev) (op : Op D σ) : Inv (step parse ev op) := by
  cases op with
  | add name expression => exact h.add name expression
  | addAll defs => exact h.addFrom _ defs
  | compile build =>
    show Inv (ev.compile build).2
    unfold Evaluator.compile
    cases hsort : topoSort ev.exprs with
    | error err => exact h
    | ok order =>
      dsimp only
      split
      · exact ⟨h.names, fun hc => by cases hc⟩
      · exact ⟨h.names, fun _ => hsort⟩
  | eval evalEntry s =>
    show Inv (ev.eval evalEntry s).2
    unfold Evaluator.eval
    split
    · exact ⟨(evaluatorEval_names evalEntry ev.order ev.entries s).trans h.names, h.sorted⟩
    · exact h

theorem inv_run (ops : List (Op D σ)) : Inv (run parse ops) := by
  induction ops using List.reverseRecOn with
  | nil => exact ⟨rfl, fun hc => by cases hc⟩
  | append_singleton ops op ih =>
    rw [run, List.foldl_concat]
    exact ih.step op

end Evaluator

/-! ### Instructions -/

/-- `cxpr_expression_dependency_instruction_count_at`; the marks are `visited`. -/
def dependencyCountAt (exprs : List (Named D)) (count : Nat → Nat) : Nat → Nat → List Bool → Nat × List Bool
  | 0, _, visited => (0, visited)
  | depth + 1, idx, visited =>
    if exprs.length ≤ idx || visited.getD idx false then (0, visited)
    else
      (List.range exprs.length).foldl (fun s i =>
        if i != idx && dependsOn exprs idx i then
          let more := dependencyCountAt exprs count depth i s.2
          (s.1 + more.1, more.2)
        else s) (count idx, visited.set idx true)

/-- `cxpr_expression_dependency_instruction_count`; `count` is `cxpr_expression_instruction_count_at`. -/
def dependencyInstructionCount (exprs : List (Named D)) (count : Nat → Nat) (name : String) : Option Nat :=
  (exprs.findIdx? (·.name == name)).map fun idx =>
    (dependencyCountAt exprs count exprs.length idx (List.replicate exprs.length false)).1

def graph (exprs : List (Named D)) : Marking.Graph Nat where
  count := exprs.length
  index i := if i < exprs.length then some i else none
  mentions i := (List.range exprs.length).filter fun j => j != i && dependsOn exprs i j
  index_lt h := by
    split at h
    · cases h
      assumption
    · cases h

theorem index_graph {v : Nat} : (graph exprs).index v = some i ↔ v = i ∧ i < exprs.length := by
  unfold graph
  dsimp only
  constructor
  · intro h
    split at h
    · cases h
      exact ⟨rfl, by assumption⟩
    · cases h
  · rintro ⟨rfl, hlt⟩
    exact if_pos hlt

theorem mem_mentions_graph : j ∈ (graph exprs).mentions i ↔ j < exprs.length ∧ j ≠ i ∧ dependsOn exprs i j = true := by
  simp [graph]

theorem lt_of_reached {idx : Nat} (hidx : idx < exprs.length) (h : ReflTransGen (RefersTo exprs) idx i) :
    i < exprs.length := by
  rcases h.cases_tail with rfl | ⟨k, -, hedge⟩
  · exact hidx
  · exact (edge_iff.mpr hedge).1.2

theorem reached_graph_iff {idx : Nat} : (∃ v, Marking.Reached (graph exprs) (· = idx) v ∧ (graph exprs).index v = some i) ↔
    i < exprs.length ∧ ReflTransGen (RefersTo exprs) idx i := by
  constructor
  · rintro ⟨v, hv, hi⟩
    obtain ⟨rfl, hlt⟩ := index_graph.mp hi
    refine ⟨hlt, ?_⟩
    clear hi hlt
    induction hv with
    | root h => exact h ▸ .refl
    | step _ hk hw ih =>
      obtain ⟨rfl, hk⟩ := index_graph.mp hk
      obtain ⟨hw, -, hdep⟩ := mem_mentions_graph.mp hw
      exact ih.tail (edge_iff.mp ⟨⟨hk, hw⟩, hdep⟩)
  · rintro ⟨hlt, hpath⟩
    refine ⟨i, ?_, index_graph.mpr ⟨rfl, hlt⟩⟩
    clear hlt
    induction hpath with
    | refl => exact .root rfl
    | @tail k i _ hedge ih =>
      obtain ⟨⟨hk, hi⟩, hdep⟩ := edge_iff.mpr hedge
      by_cases hsame : i = k
      · exact hsame ▸ ih
      · exact .step ih (index_graph.mpr ⟨rfl, hk⟩) (mem_mentions_graph.mpr ⟨hi, hsame, hdep⟩)

/-- The instructions of the expressions that are marked. -/
def weight (exprs : List (Named D)) (count : Nat → Nat) (visited : List Bool) : Nat :=
  ∑ i ∈ (Finset.range exprs.length).filter (visited.getD · false = true), count i

theorem weight_set (count : Nat → Nat) {visited : List Bool} (hlen : visited.length = exprs.length) (hi : i < exprs.length)
    (hnew : visited.getD i false = false) :
    weight exprs count (visited.set i true) = count i + weight exprs count visited := by
  unfold weight
  rw [← Finset.sum_insert (by rw [Finset.mem_filter, hnew]; simp)]
  congr 1
  ext k
  by_cases hk : k = i
  · subst hk
    simp [List.getD_eq_getElem?_getD, hlen, hi]
  · simp [List.getD_eq_getElem?_getD, List.getElem?_set_ne (Ne.symm hk), hk]

/-- What visits make of the marks, and that they add up the instructions of what they mark. -/
structure Totals (exprs : List (Named D)) (count : Nat → Nat) (total : Nat) (visited marks : List Bool) (s : Nat × List Bool) :
    Prop where
  marks : s.2 = marks
  length : s.2.length = exprs.length
  total : s.1 + weight exprs count visited = total + weight exprs count s.2

theorem totals_foldl {count : Nat → Nat} {visit : Nat → List Bool → Nat × List Bool} {mark : List Bool → Nat → List Bool}
    (hvisit : ∀ i marks, marks.length = exprs.length → Totals exprs count 0 marks (mark marks i) (visit i marks))
    (take : Nat → Bool) (nodes : List Nat) (total : Nat) {visited : List Bool} (hlen : visited.length = exprs.length) :
    Totals exprs count total visited ((nodes.filter take).foldl mark visited)
      (nodes.foldl (fun s i => if take i then (s.1 + (visit i s.2).1, (visit i s.2).2) else s) (total, visited)) := by
  induction nodes generalizing total visited with
  | nil => exact ⟨rfl, hlen, rfl⟩
  | cons node nodes ih =>
    rw [List.foldl_cons, List.filter_cons]
    cases take node with
    | false => exact ih total hlen
    | true =>
      obtain ⟨hmarks, hlength, htotal⟩ := hvisit node visited hlen
      rw [if_pos rfl, if_pos rfl, List.foldl_cons, ← hmarks]
      dsimp only
      obtain ⟨hmarks', hlength', htotal'⟩ := ih (total + (visit node visited).1) hlength
      exact ⟨hmarks', hlength', by omega⟩

theorem totals_dependencyCountAt (count : Nat → Nat) (depth idx : Nat) {visited : List Bool}
    (hlen : visited.length = exprs.length) :
    Totals exprs count 0 visited (Marking.visit (graph exprs) depth idx visited)
      (dependencyCountAt exprs count depth idx visited) := by
  induction depth generalizing idx visited with
  | zero => exact ⟨rfl, hlen, rfl⟩
  | succ depth ih =>
    unfold dependencyCountAt Marking.visit
    by_cases hidx : idx < exprs.length
    · rw [index_graph.mpr ⟨rfl, hidx⟩]
      dsimp only
      cases hmark : visited.getD idx false with
      | true =>
        rw [if_pos rfl, if_pos (by simp)]
        exact ⟨rfl, hlen, rfl⟩
      | false =>
        rw [if_neg Bool.false_ne_true, if_neg (by simpa using hidx)]
        have hset : (visited.set idx true).length = exprs.length := by rw [List.length_set, hlen]
        obtain ⟨hmarks, hlength, htotal⟩ := totals_foldl (fun i marks h => ih i h) (fun i => i != idx && dependsOn exprs idx i)
          (List.range exprs.length) (count idx) hset
        rw [weight_set count hlen hidx hmark] at htotal
        exact ⟨hmarks, hlength, by omega⟩
    · have hnone : (graph exprs).index idx = none := if_neg hidx
      rw [if_pos (by simp; omega), hnone]
      exact ⟨rfl, hlen, rfl⟩

end Cxpr.Expression
