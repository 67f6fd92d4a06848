import Mathlib.Data.List.Perm.Subperm
import Cxpr.Alias.Expand
import Cxpr.Lib.Unfolding

/-! Alias expansion is unfolding: where every reference stands at a place that the expander visits, it gives the tree that
    all aliases are replaced in, or the error of a cycle. -/

namespace Cxpr.Alias
open Relation
variable {D : Type} {aliases : Aliases}

theorem aliasOf_singleton (aliases : Aliases) (name : String) :
    aliasOf aliases [name] = if isAlias aliases name then some (name, []) else none := rfl

theorem aliasOf_pair (aliases : Aliases) (object field : String) :
    aliasOf aliases [object, field] =
      if isAlias aliases (Ast.fullKey [object, field]) then some (Ast.fullKey [object, field], [])
      else if isAlias aliases object then some (object, [field]) else none := rfl

variable {path tail : List String} {name : String}

theorem prefixAlias_isAlias {n : Nat}
    (h : prefixAlias aliases path n = some (name, tail)) : isAlias aliases name = true := by
  induction n with
  | zero => cases h
  | succ n ih =>
    unfold prefixAlias at h
    split at h
    · rename_i halias
      cases h
      exact halias
    · exact ih h

theorem prefixAlias_split {n : Nat} (hn : n ≤ path.length)
    (h : prefixAlias aliases path n = some (name, tail)) :
    ∃ m, 0 < m ∧ m ≤ n ∧ name = Ast.fullKey (path.take m) ∧ tail = path.drop m := by
  induction n with
  | zero => cases h
  | succ n ih =>
    unfold prefixAlias at h
    split at h
    · cases h
      exact ⟨n + 1, Nat.succ_pos n, Nat.le_refl _, rfl, rfl⟩
    · obtain ⟨m, hpos, hle, hname, htail⟩ := ih (Nat.le_of_succ_le hn) h
      exact ⟨m, hpos, Nat.le_succ_of_le hle, hname, htail⟩

theorem prefixAlias_none {n m : Nat} (hpos : 0 < m) (hle : m ≤ n)
    (h : prefixAlias aliases path n = none) : isAlias aliases (Ast.fullKey (path.take m)) = false := by
  induction n with
  | zero => exact absurd hpos (Nat.not_lt.mpr hle)
  | succ n ih =>
    unfold prefixAlias at h
    split at h
    · cases h
    · rename_i hnot
      rcases Nat.le_succ_iff.mp hle with hle | rfl
      · exact ih hle h
      · exact Bool.eq_false_iff.mpr hnot

theorem aliasOf_whole (hne : path ≠ []) (h : isAlias aliases (Ast.fullKey path) = true) :
    aliasOf aliases path = some (Ast.fullKey path, []) := by
  unfold aliasOf
  cases hlength : path.length with
  | zero => exact absurd (List.length_eq_zero_iff.mp hlength) hne
  | succ n =>
    have htake : path.take (n + 1) = path := List.take_of_length_le (by omega)
    have hdrop : path.drop (n + 1) = [] := List.drop_of_length_le (by omega)
    rw [prefixAlias, htake, hdrop, if_pos h]

theorem aliasOf_tail_ne_nil (h : isAlias aliases (Ast.fullKey path) = false) (hof : aliasOf aliases path = some (name, tail)) : tail ≠ [] := by
  rintro rfl
  have halias := prefixAlias_isAlias hof
  obtain ⟨m, _, hm, rfl, hdrop⟩ := prefixAlias_split (Nat.le_refl _) hof
  rw [List.take_of_length_le (List.drop_eq_nil_iff.mp hdrop.symm), h] at halias
  cases halias

/-! ### References -/

theorem substPath_congr {E F : String → Ast D} {ast : Ast D}
    (h : ∀ b ∈ pathRefs aliases path, E b = F b) : substPath aliases E path ast = substPath aliases F path ast := by
  unfold substPath
  cases hof : aliasOf aliases path with
  | none => rfl
  | some found =>
    have hmem : found.1 ∈ pathRefs aliases path := by simp [pathRefs, hof]
    simp only [h found.1 hmem]

theorem aliasOf_of_pathRefs_nil (h : pathRefs aliases path = []) : aliasOf aliases path = none := by
  simpa [pathRefs] using h

theorem substPath_of_pathRefs_nil {E : String → Ast D} {ast : Ast D}
    (h : pathRefs aliases path = []) : substPath aliases E path ast = ast := by
  rw [substPath, aliasOf_of_pathRefs_nil h]

section
variable {E F : String → Ast D}

mutual

theorem subst_congr (a : Ast D) (h : ∀ b ∈ refs aliases a, E b = F b) : subst aliases E a = subst aliases F a := by
  cases a with
  | identifier name => exact substPath_congr h
  | fieldAccess object field => exact substPath_congr h
  | chainAccess path => exact substPath_congr h
  | array elements => exact congrArg _ (substList_congr elements h)
  | record names values => exact congrArg _ (substList_congr values h)
  | fieldOf base field => exact congrArg (Ast.fieldOf · field) (subst_congr base h)
  | producerAccess name args argNames field =>
    exact congrArg (Ast.producerAccess name · argNames field) (substList_congr args h)
  | binary op left right =>
    simp only [refs, List.mem_append] at h
    rw [subst, subst, subst_congr left fun b hb => h b (.inl hb), subst_congr right fun b hb => h b (.inr hb)]
  | unary op operand => exact congrArg _ (subst_congr operand h)
  | call name args argNames => exact congrArg (Ast.call name · argNames) (substList_congr args h)
  | index target i =>
    simp only [refs, List.mem_append] at h
    rw [subst, subst, subst_congr target fun b hb => h b (.inl hb), subst_congr i fun b hb => h b (.inr hb)]
  | ternary c t e =>
    simp only [refs, List.mem_append] at h
    rw [subst, subst, subst_congr c fun b hb => h b (.inl hb), subst_congr t fun b hb => h b (.inr (.inl hb)),
      subst_congr e fun b hb => h b (.inr (.inr hb))]
  | number v => rfl
  | int64 v => rfl
  | bool v => rfl
  | string v => rfl
  | param name => rfl

theorem substList_congr (as : List (Ast D)) (h : ∀ b ∈ refsList aliases as, E b = F b) :
    substList aliases E as = substList aliases F as := by
  cases as with
  | nil => rfl
  | cons a as =>
    simp only [refsList, List.mem_append] at h
    rw [substList, substList, subst_congr a fun b hb => h b (.inl hb), substList_congr as fun b hb => h b (.inr hb)]

end
end

section
variable {E : String → Ast D}

mutual

theorem subst_of_refs_nil (a : Ast D) (h : refs aliases a = []) : subst aliases E a = a := by
  cases a with
  | identifier name => exact substPath_of_pathRefs_nil h
  | fieldAccess object field => exact substPath_of_pathRefs_nil h
  | chainAccess path => exact substPath_of_pathRefs_nil h
  | array elements => exact congrArg _ (substList_of_refs_nil elements h)
  | record names values => exact congrArg _ (substList_of_refs_nil values h)
  | fieldOf base field => exact congrArg (Ast.fieldOf · field) (subst_of_refs_nil base h)
  | producerAccess name args argNames field =>
    exact congrArg (Ast.producerAccess name · argNames field) (substList_of_refs_nil args h)
  | binary op left right =>
    obtain ⟨hl, hr⟩ := List.append_eq_nil_iff.mp h
    rw [subst, subst_of_refs_nil left hl, subst_of_refs_nil right hr]
  | unary op operand => exact congrArg _ (subst_of_refs_nil operand h)
  | call name args argNames => exact congrArg (Ast.call name · argNames) (substList_of_refs_nil args h)
  | index target i =>
    obtain ⟨ht, hi⟩ := List.append_eq_nil_iff.mp h
    rw [subst, subst_of_refs_nil target ht, subst_of_refs_nil i hi]
  | ternary c t e =>
    obtain ⟨hc, hbranches⟩ := List.append_eq_nil_iff.mp h
    obtain ⟨ht, he⟩ := List.append_eq_nil_iff.mp hbranches
    rw [subst, subst_of_refs_nil c hc, subst_of_refs_nil t ht, subst_of_refs_nil e he]
  | number v => rfl
  | int64 v => rfl
  | bool v => rfl
  | string v => rfl
  | param name => rfl

theorem substList_of_refs_nil (as : List (Ast D)) (h : refsList aliases as = []) : substList aliases E as = as := by
  cases as with
  | nil => rfl
  | cons a as =>
    obtain ⟨ha, has⟩ := List.append_eq_nil_iff.mp h
    rw [substList, subst_of_refs_nil a ha, substList_of_refs_nil as has]

end
end

def references (aliases : Aliases) : Substitution String (Ast D) where
  refs := refs aliases
  subst := subst aliases
  congr h := subst_congr _ h

def body (parse : String → Except Error (Ast D)) (aliases : Aliases) (name : String) : Option (Ast D) :=
  (lookup aliases name).bind fun expression => (parse expression).toOption

section
variable (parse : String → Except Error (Ast D)) (aliases : Aliases)

/-- The fully expanded tree of an alias, which is the alias where expansion has no end. -/
noncomputable def expanded : String → Ast D := (references aliases).unfolded (body parse aliases) .identifier

/-- The tree with every reference replaced by the fully expanded tree of its alias. -/
noncomputable def fullExpansion (ast : Ast D) : Ast D := subst aliases (expanded parse aliases) ast

def Reaches (ast : Ast D) (a : String) : Prop :=
  ∃ b ∈ refs aliases ast, ReflTransGen ((references aliases).Mentions (body parse aliases)) b a

def Cyclic (ast : Ast D) : Prop := (references aliases).Cyclic (body parse aliases) ast

inductive CallAlias : String → Prop
  | call {a name : String} {args : List (Ast D)} {argNames : List (Option String)} :
    body parse aliases a = some (.call name args argNames) → CallAlias a
  | named {a b : String} {ast : Ast D} {path : List String} :
    body parse aliases a = some ast → segments? ast = some path → aliasOf aliases path = some (b, []) → CallAlias b →
    CallAlias a

def CoveredPath (path : List String) : Prop :=
  ∀ name tail, aliasOf aliases path = some (name, tail) → tail = [] ∨ path.length = 2 ∧ CallAlias parse aliases name

mutual

/-- The references of the tree are not inside of arrays and records, and their paths are covered. -/
def Covered : Ast D → Prop
  | .identifier _ => True
  | .fieldAccess object field => CoveredPath parse aliases [object, field]
  | .chainAccess path => path ≠ [] ∧ CoveredPath parse aliases path
  | .array elements => refsList aliases elements = []
  | .record _ fieldValues => refsList aliases fieldValues = []
  | .fieldOf base _ => Covered base
  | .producerAccess _ args _ _ => CoveredList args
  | .binary _ left right => Covered left ∧ Covered right
  | .unary _ operand => Covered operand
  | .call _ args _ => CoveredList args
  | .index target index => Covered target ∧ Covered index
  | .ternary condition trueBranch falseBranch => Covered condition ∧ Covered trueBranch ∧ Covered falseBranch
  | .number _ | .int64 _ | .bool _ | .string _ | .param _ => True

def CoveredList : List (Ast D) → Prop
  | [] => True
  | a :: as => Covered a ∧ CoveredList as

end

def CoveredAll (ast : Ast D) : Prop :=
  Covered parse aliases ast ∧
    ∀ a t, Reaches parse aliases ast a → body parse aliases a = some t → Covered parse aliases t

def Parses (ast : Ast D) : Prop := ∀ a, Reaches parse aliases ast a → ∃ t, body parse aliases a = some t

end

/-! ### What the expander comes to -/

section
variable {parse : String → Except Error (Ast D)}

variable {name : String}

theorem lookup_of_body {t : Ast D} (h : body parse aliases name = some t) :
    ∃ expression, lookup aliases name = some expression ∧ parse expression = .ok t := by
  obtain ⟨expression, hlookup, hparse⟩ := Option.bind_eq_some_iff.mp h
  cases hrun : parse expression with
  | error e =>
    rw [hrun] at hparse
    cases hparse
  | ok u =>
    rw [hrun] at hparse
    cases hparse
    exact ⟨expression, hlookup, hrun⟩

theorem isAlias_of_body {t : Ast D} (h : body parse aliases name = some t) : isAlias aliases name = true := by
  obtain ⟨expression, hlookup, _⟩ := lookup_of_body h
  rw [isAlias, hlookup]
  rfl

theorem mem_names_of_isAlias (h : isAlias aliases name = true) : name ∈ aliases.map Prod.fst := by
  obtain ⟨expression, hlookup⟩ := Option.isSome_iff_exists.mp h
  unfold lookup at hlookup
  split at hlookup
  · cases hlookup
  · obtain ⟨l₁, l₂, rfl, _⟩ := List.lookup_eq_some_iff.mp hlookup
    simp

theorem call_of_callAlias {a : String} {u : Ast D} (h : CallAlias parse aliases a)
    (hu : (references aliases).Unfolds (body parse aliases) a u) : ∃ name args argNames, u = .call name args argNames := by
  induction h generalizing u with
  | call hbody =>
    cases hu with
    | intro E hbody' _ =>
      rw [hbody] at hbody'
      cases hbody'
      exact ⟨_, _, _, rfl⟩
  | named hbody hsegments hof _ ih =>
    cases hu with
    | intro E hbody' hrefs =>
      rw [hbody] at hbody'
      cases hbody'
      rename_i a b ast path _
      have hmem : b ∈ refs aliases ast := by
        cases ast <;> cases hsegments <;> simp [refs, pathRefs, hof]
      have hsubst : subst aliases E ast = E b := by
        cases ast <;> cases hsegments <;> simp [subst, substPath, hof]
      obtain ⟨name, args, argNames, hcall⟩ := ih (hrefs b hmem)
      exact ⟨name, args, argNames, hsubst.trans hcall⟩

abbrev OutcomeOf (parse : String → Except Error (Ast D)) (aliases : Aliases) (stack refs : List String) {α : Type}
    (value : α) (r : Except Failure α) : Prop :=
  (references aliases).Outcome (body parse aliases) .cycle stack refs value r

variable {stack : List String} {named : String → Except Failure (Ast D)}

theorem outcome_path {first : String} {rest : List String} (ast : Ast D)
    (hcovered : CoveredPath parse aliases (first :: rest))
    (hnamed : ∀ b ∈ pathRefs aliases (first :: rest),
      OutcomeOf parse aliases stack [b] (expanded parse aliases b) (named b)) :
    OutcomeOf parse aliases stack (pathRefs aliases (first :: rest))
      (substPath aliases (expanded parse aliases) (first :: rest) ast)
      (if isAlias aliases (Ast.fullKey (first :: rest)) then named (Ast.fullKey (first :: rest))
        else expandObject aliases named first (Ast.fullKey rest) ast) := by
  cases hwhole : isAlias aliases (Ast.fullKey (first :: rest)) with
  | true =>
    have hof := aliasOf_whole (List.cons_ne_nil _ _) hwhole
    have hrefs : pathRefs aliases (first :: rest) = [Ast.fullKey (first :: rest)] := by simp [pathRefs, hof]
    rw [hrefs] at hnamed ⊢
    have hsubst : substPath aliases (expanded parse aliases) (first :: rest) ast =
        expanded parse aliases (Ast.fullKey (first :: rest)) := by simp [substPath, hof]
    rw [hsubst, if_pos rfl]
    exact hnamed _ (List.mem_singleton_self _)
  | false =>
    rw [if_neg Bool.false_ne_true, expandObject]
    cases hof : aliasOf aliases (first :: rest) with
    | none =>
      have hfirst : isAlias aliases first = false := prefixAlias_none (m := 1) Nat.one_pos (by simp) hof
      rw [hfirst, if_neg Bool.false_ne_true]
      simpa [pathRefs, substPath, hof] using Substitution.Outcome.pure ast
    | some found =>
      obtain ⟨name, tail⟩ := found
      -- only the field of an alias for a call is left
      obtain ⟨hlength, hcall⟩ := (hcovered name tail hof).resolve_left (aliasOf_tail_ne_nil hwhole hof)
      obtain ⟨field, rfl⟩ : ∃ field, rest = [field] := List.length_eq_one_iff.mp (by simpa using hlength)
      have hpair := aliasOf_pair aliases first field
      rw [hwhole, if_neg Bool.false_ne_true, hof] at hpair
      split at hpair
      case isFalse => cases hpair
      case isTrue hfirst =>
        cases hpair
        rw [hfirst, if_pos rfl]
        have hrefs : pathRefs aliases [first, field] = [first] := by simp [pathRefs, hof]
        rw [hrefs] at hnamed ⊢
        have houtcome := hnamed first (List.mem_singleton_self _)
        cases hrun : named first with
        | error f =>
          rw [hrun] at houtcome
          cases houtcome with
          | cycle hmem hreach hcycle => exact .cycle hmem hreach hcycle
        | ok u =>
          rw [hrun] at houtcome
          cases houtcome with
          | value hunfold hstack =>
            obtain ⟨u, hu⟩ := hunfold first (List.mem_singleton_self _)
            have heq : expanded parse aliases first = u := Substitution.unfolded_of_unfolds hu
            obtain ⟨callee, args, argNames, rfl⟩ := call_of_callAlias hcall hu
            have hsubst : substPath aliases (expanded parse aliases) [first, field] ast =
                .producerAccess callee args argNames field := by
              simp [substPath, hof, heq, fieldOn, makeFieldFromExpanded]
            rw [hsubst, heq]
            exact .value hunfold hstack

mutual

theorem outcome_expandAst (a : Ast D) (hcovered : Covered parse aliases a)
    (hnamed : ∀ b ∈ refs aliases a, OutcomeOf parse aliases stack [b] (expanded parse aliases b) (named b)) :
    OutcomeOf parse aliases stack (refs aliases a) (fullExpansion parse aliases a) (expandAst aliases named a) := by
  cases a with
  | identifier name =>
    have hpath : CoveredPath parse aliases [name] := by
      intro found tail hof
      rw [aliasOf_singleton] at hof
      split at hof
      · cases hof
        exact .inl rfl
      · cases hof
    have houtcome := outcome_path (.identifier name) hpath hnamed
    have hcode : expandAst aliases named (.identifier name) =
        if isAlias aliases (Ast.fullKey [name]) then named (Ast.fullKey [name])
        else expandObject aliases named name (Ast.fullKey []) (.identifier name) := by
      rw [expandAst, expandObject]
      change _ = if isAlias aliases name then named name else _
      cases isAlias aliases name <;> rfl
    rw [hcode]
    exact houtcome
  | fieldAccess object field => exact outcome_path (.fieldAccess object field) hcovered hnamed
  | chainAccess path =>
    cases path with
    | nil => exact absurd rfl hcovered.1
    | cons first rest => exact outcome_path (.chainAccess (first :: rest)) hcovered.2 hnamed
  | array elements =>
    have hrefs : refs aliases (.array elements) = [] := hcovered
    have hsame : fullExpansion parse aliases (.array elements) = .array elements :=
      subst_of_refs_nil _ hrefs
    rw [hrefs, hsame]
    exact .pure _
  | record names values =>
    have hrefs : refs aliases (.record names values) = [] := hcovered
    have hsame : fullExpansion parse aliases (.record names values) = .record names values :=
      subst_of_refs_nil _ hrefs
    rw [hrefs, hsame]
    exact .pure _
  | fieldOf base field => exact (outcome_expandAst base hcovered hnamed).map (Ast.fieldOf · field)
  | producerAccess name args argNames field =>
    exact (outcome_expandArgs args hcovered hnamed).map (Ast.producerAccess name · argNames field)
  | binary op left right =>
    simp only [refs, List.mem_append] at hnamed
    exact (outcome_expandAst left hcovered.1 fun b hb => hnamed b (.inl hb)).seq (Ast.binary op)
      (outcome_expandAst right hcovered.2 fun b hb => hnamed b (.inr hb))
  | unary op operand => exact (outcome_expandAst operand hcovered hnamed).map (Ast.unary op)
  | call name args argNames => exact (outcome_expandArgs args hcovered hnamed).map (Ast.call name · argNames)
  | index target i =>
    simp only [refs, List.mem_append] at hnamed
    exact (outcome_expandAst target hcovered.1 fun b hb => hnamed b (.inl hb)).seq Ast.index
      (outcome_expandAst i hcovered.2 fun b hb => hnamed b (.inr hb))
  | ternary c t e =>
    simp only [refs, List.mem_append] at hnamed
    have hbranches := (outcome_expandAst t hcovered.2.1 fun b hb => hnamed b (.inr (.inl hb))).seq (fun t e => (t, e))
      (outcome_expandAst e hcovered.2.2 fun b hb => hnamed b (.inr (.inr hb)))
    have hall := (outcome_expandAst c hcovered.1 fun b hb => hnamed b (.inl hb)).seq
      (fun c p => Ast.ternary c p.1 p.2) hbranches
    have hcode : expandAst aliases named (.ternary c t e) = (do
        let c ← expandAst aliases named c
        let p ← (do let t ← expandAst aliases named t; let e ← expandAst aliases named e; return (t, e))
        return .ternary c p.1 p.2) := by simp [expandAst]
    rw [hcode]
    exact hall
  | number v => exact .pure _
  | int64 v => exact .pure _
  | bool v => exact .pure _
  | string v => exact .pure _
  | param name => exact .pure _

theorem outcome_expandArgs (as : List (Ast D)) (hcovered : CoveredList parse aliases as)
    (hnamed : ∀ b ∈ refsList aliases as, OutcomeOf parse aliases stack [b] (expanded parse aliases b) (named b)) :
    OutcomeOf parse aliases stack (refsList aliases as) (substList aliases (expanded parse aliases) as)
      (expandArgs aliases named as) := by
  cases as with
  | nil => exact .pure _
  | cons a as =>
    simp only [refsList, List.mem_append] at hnamed
    exact (outcome_expandAst a hcovered.1 fun b hb => hnamed b (.inl hb)).seq List.cons
      (outcome_expandArgs as hcovered.2 fun b hb => hnamed b (.inr hb))

end

structure Stacked (aliases : Aliases) (stack : List String) : Prop where
  nodup : stack.Nodup
  aliases : ∀ c ∈ stack, isAlias aliases c = true

theorem Stacked.length_le (h : Stacked aliases stack) : stack.length ≤ aliases.length := by
  have hsubset : stack ⊆ aliases.map Prod.fst := fun c hc => mem_names_of_isAlias (h.aliases c hc)
  simpa using (List.subperm_of_subset h.nodup hsubset).length_le

theorem Stacked.push (h : Stacked aliases stack) (hfresh : name ∉ stack)
    (halias : isAlias aliases name = true) : Stacked aliases (name :: stack) :=
  ⟨List.nodup_cons.mpr ⟨hfresh, h.nodup⟩, fun c hc => (List.mem_cons.mp hc).elim (fun heq => heq ▸ halias) (h.aliases c)⟩

theorem stacked_nil : Stacked aliases [] := ⟨List.nodup_nil, fun _ h => absurd h List.not_mem_nil⟩

theorem outcome_expandNamed {fuel : Nat} {b : String} (hstack : Stacked aliases stack)
    (hfuel : aliases.length < fuel + stack.length)
    (hreach : ∀ c, ReflTransGen ((references aliases).Mentions (body parse aliases)) b c →
      ∃ t, body parse aliases c = some t ∧ Covered parse aliases t) :
    OutcomeOf parse aliases stack [b] (expanded parse aliases b) (expandNamed parse aliases fuel stack b) := by
  induction fuel generalizing stack b with
  | zero => exact absurd hstack.length_le (by omega)
  | succ fuel ih =>
    obtain ⟨t, hbody, hcovered⟩ := hreach b .refl
    obtain ⟨expression, hlookup, hparse⟩ := lookup_of_body hbody
    simp only [expandNamed, hlookup, hparse]
    by_cases hmem : b ∈ stack
    · rw [if_pos hmem]
      exact .cycle (List.mem_singleton_self b) .refl (.inl hmem)
    · rw [if_neg hmem]
      refine Substitution.Outcome.name hbody hmem (outcome_expandAst t hcovered fun c hc => ?_)
      exact ih (hstack.push hmem (isAlias_of_body hbody)) (by simpa [Nat.add_assoc, Nat.add_comm 1] using hfuel)
        fun d hd => hreach d (.head ⟨t, hbody, hc⟩ hd)

theorem expandTree_covered {expression : String} {ast : Ast D} (hast : parse expression = .ok ast)
    (hparses : Parses parse aliases ast) (hcovered : CoveredAll parse aliases ast) :
    (expandTree parse aliases expression = .error .cycle ↔ Cyclic parse aliases ast) ∧
      (¬Cyclic parse aliases ast → expandTree parse aliases expression = .ok (fullExpansion parse aliases ast)) := by
  have hnamed : ∀ b ∈ refs aliases ast, OutcomeOf parse aliases [] [b] (expanded parse aliases b)
      (expandNamed parse aliases (aliases.length + 1) [] b) := fun b hb =>
    outcome_expandNamed stacked_nil (Nat.lt_succ_self _) fun c hc => by
      obtain ⟨t, ht⟩ := hparses c ⟨b, hb, hc⟩
      exact ⟨t, ht, hcovered.2 c t ⟨b, hb, hc⟩ ht⟩
  have hempty := Substitution.Outcome.of_empty (t := ast) (outcome_expandAst ast hcovered.1 hnamed)
  simp only [expandTree, hast]
  exact ⟨hempty.1, fun h => (hempty.2 h).2⟩

end
end Cxpr.Alias
