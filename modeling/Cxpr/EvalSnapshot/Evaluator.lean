import Cxpr.EvalSnapshot.Agreement
import Cxpr.NamedCalls

/-! Snapshots of the tree evaluator. -/

namespace Cxpr.EvalSnapshot
open Ast Eval
variable {D : Type} [Double D] {ev : Evaluation D} {reg : Registry D} {ast : Ast D} {ctx : Context D} {indexed : Bool}

/-- What the builder sees of an evaluation: its value and the context after it, which is `failed` where there is no value. -/
def observed (r : Except Error (Value D × Context D)) (failed : Context D) : Option (Value D) × Context D :=
  match r with
  | .ok (v, ctx) => (some v, ctx)
  | .error _ => (none, failed)

omit [Double D] in
theorem observed_fst (r : Except Error (Value D × Context D)) (failed : Context D) : (observed r failed).1 = outcome r := by
  rcases r with e | ⟨v, c⟩ <;> rfl

/-- `cxpr_eval_ast` on the nodes of a snapshot: `after` is the context after an evaluation that fails. -/
def treeEvaluation (reg : Registry D) (depth : Nat) (after : Ast D → Context D → Context D)
    (atOffset : Ast D → Nat → Context D → Option (Value D) × Context D) : Evaluation D where
  ast a ctx := observed (evalAst reg depth a ctx) (after a ctx)
  atOffset := atOffset

theorem treeEvaluation_on (depth : Nat) (after : Ast D → Context D → Context D)
    (atOffset : Ast D → Nat → Context D → Option (Value D) × Context D) :
    ((treeEvaluation reg depth after atOffset).on ctx).ast = fun a => outcome (evalAst reg depth a ctx) := by
  funext a
  exact observed_fst _ _

/-- No evaluation of a subexpression changes what another one evaluates to, whether it comes after it as an expression of its
    own or, behind the condition of a conditional, inside one evaluation. -/
structure Undisturbed (reg : Registry D) (depth : Nat) (ev : Evaluation D) (ast : Ast D) (ctx : Context D) : Prop where
  steady : Steady ev ast ctx
  inside : ∀ c t e, .ternary c t e ∈ subexprs ast → ∀ chosen ctx',
    evalDepth reg depth c (memoEnter ctx) = .ok (.bool chosen, ctx') →
      outcome (evalDepth reg depth (if chosen then t else e) ctx') =
        outcome (evalDepth reg depth (if chosen then t else e) (memoEnter ctx))

def Accepted (reg : Registry D) (ast : Ast D) : Prop := ∃ t, typecheck ast reg = .ok t

theorem Accepted.branch {c t e : Ast D} (h : Accepted reg (.ternary c t e)) (chosen : Bool) :
    Accepted reg (if chosen then t else e) := by
  obtain ⟨type, htype⟩ := h
  unfold typecheck at htype
  rw [Typecheck.infer] at htype
  obtain ⟨condType, -, hrest⟩ := bind_eq_ok.mp htype
  split at hrest
  · cases hrest
  obtain ⟨trueType, htrue, hrest⟩ := bind_eq_ok.mp hrest
  obtain ⟨falseType, hfalse, -⟩ := bind_eq_ok.mp hrest
  cases chosen with
  | true => exact ⟨trueType, htrue⟩
  | false => exact ⟨falseType, hfalse⟩

theorem evalDepth_of_outcome {a : Ast D} {depth : Nat} {v : Value D} (h : outcome (evalAst reg depth a ctx) = some v) :
    ∃ c, evalDepth reg depth a (memoEnter ctx) = .ok (v, c) := by
  by_cases htype : ∃ t, typecheck a reg = .ok t
  · rw [outcome_evalAst htype] at h
    rcases hrun : evalDepth reg depth a (memoEnter ctx) with e | ⟨w, c⟩
    · rw [hrun] at h
      cases h
    · rw [hrun] at h
      obtain rfl : w = v := Option.some.inj h
      exact ⟨c, rfl⟩
  · rw [outcome_evalAst_refused htype] at h
    cases h

omit [Double D] in
theorem leftDecides_eq_some {op : BinaryOp} {left : Option (Value D)} {decided : Bool} (h : leftDecides op left = some decided) :
    (op = .and ∧ decided = false ∨ op = .or ∧ decided = true) ∧ left = some (.bool decided) := by
  unfold leftDecides at h
  split at h
  · cases h
    exact ⟨.inl ⟨rfl, rfl⟩, rfl⟩
  · cases h
    exact ⟨.inr ⟨rfl, rfl⟩, rfl⟩
  · cases h

omit [Double D] in
theorem chosenBranch_eq_some {cond : Option (Value D)} {chosen : Bool} (h : chosenBranch cond = some chosen) :
    cond = some (.bool chosen) := by
  unfold chosenBranch at h
  split at h
  · cases h
    rfl
  · cases h

theorem follows_tree {depth : Nat} (hundisturbed : Undisturbed reg depth ev ast ctx) :
    Follows (fun a => outcome (evalAst reg depth a ctx)) (Accepted reg) ast := by
  refine ⟨fun a _ hrefused => outcome_evalAst_refused hrefused depth, ?_, ?_⟩
  · intro op l r _ haccepted decided hdecides
    obtain ⟨hop, hleft⟩ := leftDecides_eq_some hdecides
    obtain ⟨c, hrun⟩ := evalDepth_of_outcome hleft
    rw [outcome_evalAst haccepted]
    cases depth with
    | zero => cases hrun
    | succ depth =>
      rw [evalDepth] at hrun ⊢
      rw [evalNode]
      unfold evalBinary
      rw [Stateful.bind_apply_ok hrun]
      rcases hop with ⟨rfl, rfl⟩ | ⟨rfl, rfl⟩ <;> rfl
  · intro cond t e hself haccepted chosen hchosen
    have hcond := chosenBranch_eq_some hchosen
    obtain ⟨c, hrun⟩ := evalDepth_of_outcome hcond
    have hinside := hundisturbed.inside cond t e hself chosen c hrun
    rw [outcome_evalAst haccepted]
    cases depth with
    | zero => cases hrun
    | succ depth =>
      rw [outcome_evalAst (haccepted.branch chosen), ← hinside]
      rw [evalDepth] at hrun ⊢
      rw [evalNode]
      unfold evalTernary
      rw [Stateful.bind_apply_ok hrun]
      cases chosen <;> rfl

theorem scalar_subexprs (h : Scalar reg indexed ast) : ∀ a ∈ subexprs ast, Scalar reg indexed a := by
  induction h with
  | number unsigned => exact fun a ha => List.mem_singleton.mp ha ▸ .number unsigned
  | bool b => exact fun a ha => List.mem_singleton.mp ha ▸ .bool b
  | identifier name => exact fun a ha => List.mem_singleton.mp ha ▸ .identifier name
  | param name => exact fun a ha => List.mem_singleton.mp ha ▸ .param name
  | unary op hx ih =>
    intro a ha
    rcases List.mem_cons.mp ha with rfl | ha
    · exact .unary op hx
    · exact ih a ha
  | binary op hl hr ihl ihr =>
    intro a ha
    rcases List.mem_cons.mp ha with rfl | ha
    · exact .binary op hl hr
    rcases List.mem_append.mp ha with ha | ha
    · exact ihl a ha
    · exact ihr a ha
  | ternary hc ht he ihc iht ihe =>
    intro a ha
    rcases List.mem_cons.mp ha with rfl | ha
    · exact .ternary hc ht he
    rcases List.mem_append.mp ha with ha | ha
    · rcases List.mem_append.mp ha with ha | ha
      · exact ihc a ha
      · exact iht a ha
    · exact ihe a ha
  | ifCall hif hc ht he argNames ihc iht ihe =>
    intro a ha
    simp only [subexprs, subexprsAll, List.append_nil, List.mem_cons, List.mem_append] at ha
    rcases ha with rfl | ha | ha | ha
    · exact .ifCall hif hc ht he argNames
    · exact ihc a ha
    · exact iht a ha
    · exact ihe a ha
  | array hi hes ih =>
    intro a ha
    rcases List.mem_cons.mp ha with rfl | ha
    · exact .array hi hes
    · obtain ⟨e, he, ha⟩ := mem_subexprsAll_iff.mp ha
      exact ih e he a ha
  | index hi hreg ht hi' iht ihi =>
    intro a ha
    rcases List.mem_cons.mp ha with rfl | ha
    · exact .index hi hreg ht hi'
    rcases List.mem_append.mp ha with ha | ha
    · exact iht a ha
    · exact ihi a ha

omit [Double D] in
theorem outcome_of_computes {I : Set (Context D)} {act : EvalM D (Value D)} {r : Except Error (Value D)}
    (h : Stateful.Computes I act r) {c : Context D} (hc : c ∈ I) : outcome (act c) = r.toOption := by
  have hrun := h c hc
  cases r with
  | error e => rw [show act c = .error e from hrun]; rfl
  | ok v =>
    obtain ⟨c', -, hrun⟩ := hrun
    rw [hrun]
    rfl

theorem scalar_inside {c a : Ast D} (hc : Scalar reg indexed c) (ha : Scalar reg indexed a) (hidle : Idle ctx) (depth : Nat)
    {v : Value D} {ctx' : Context D} (hrun : evalDepth reg depth c (memoEnter ctx) = .ok (v, ctx')) :
    outcome (evalDepth reg depth a ctx') = outcome (evalDepth reg depth a (memoEnter ctx)) := by
  cases depth with
  | zero => rfl
  | succ depth =>
    have hstart : memoEnter ctx ∈ Memoing reg indexed (memoEnter ctx) := memoEnter_mem_memoing hidle
    have hnode : ∀ {x : Ast D}, Scalar reg indexed x → Stateful.Computes (Memoing reg indexed (memoEnter ctx))
        (evalNode reg (evalDepth reg depth) x) (denote (memoEnter ctx).env x) := evalNode_computes
    have hcond := hnode hc _ hstart
    have hbranch := hnode ha
    have hmem : ctx' ∈ Memoing reg indexed (memoEnter ctx) := by
      cases hden : denote (memoEnter ctx).env c with
      | error e =>
        rw [hden] at hcond
        cases hcond.symm.trans hrun
      | ok w =>
        rw [hden] at hcond
        obtain ⟨c', hc', hcond⟩ := hcond
        cases hcond.symm.trans hrun
        exact hc'
    rw [evalDepth, outcome_of_computes hbranch hmem, outcome_of_computes hbranch hstart]

omit [Double D] in
theorem withMemo_withMemo (ctx : Context D) : withMemo (withMemo ctx []) [] = withMemo ctx [] := by
  cases ctx <;> rfl

omit [Double D] in
theorem idle_withMemo (hidle : Idle ctx) : Idle (withMemo ctx []) := by
  cases ctx with
  | nil => exact hidle
  | cons f parent =>
    intro g hg
    obtain rfl := Option.some.inj hg
    exact hidle f rfl

theorem observed_scalar (hast : Scalar reg indexed ast) (hidle : Idle ctx) (depth : Nat) :
    observed (evalAst reg (depth + 1) ast ctx) (withMemo ctx []) =
      (((typecheck ast reg).toOption.bind fun _ => (denote ctx.env ast).toOption), withMemo ctx []) := by
  have hspec := evalAstValue_spec hast hidle depth
  unfold evalAst
  cases typecheck ast reg with
  | error e => rfl
  | ok t =>
    show observed (evalAstValue reg (depth + 1) ast ctx) _ = _
    cases hden : denote ctx.env ast with
    | error e =>
      rw [hden] at hspec
      rw [show evalAstValue reg (depth + 1) ast ctx = _ from hspec]
      rfl
    | ok v =>
      rw [hden] at hspec
      rw [show evalAstValue reg (depth + 1) ast ctx = _ from hspec]
      rfl

theorem undisturbed_of_scalar (hast : Scalar reg indexed ast) (hidle : Idle ctx) (depth : Nat) :
    Undisturbed reg (depth + 1)
      (treeEvaluation reg (depth + 1) (fun _ c => withMemo c []) fun _ _ c => (none, c)) ast ctx := by
  have hsub := scalar_subexprs hast
  have hrun : ∀ a ∈ subexprs ast, ∀ c, c = ctx ∨ c = withMemo ctx [] →
      observed (evalAst reg (depth + 1) a c) (withMemo c []) =
        observed (evalAst reg (depth + 1) a ctx) (withMemo ctx []) := by
    rintro a ha c (rfl | rfl)
    · rfl
    · rw [observed_scalar (hsub a ha) (idle_withMemo hidle), observed_scalar (hsub a ha) hidle, withMemo_withMemo, env_withMemo]
  have hvisited : ∀ c, Visited (treeEvaluation reg (depth + 1) (fun _ c => withMemo c []) fun _ _ c => (none, c)) ast ctx c →
      c = ctx ∨ c = withMemo ctx [] := by
    intro c hc
    induction hc with
    | start => exact .inl rfl
    | ast ha _ ih =>
      refine .inr ((congrArg Prod.snd (hrun _ ha _ ih)).trans ?_)
      rw [observed_scalar (hsub _ ha) hidle]
    | atOffset i ha _ ih => exact ih
  refine ⟨⟨fun c hc a ha => ?_, fun c _ a _ i => rfl⟩, ?_⟩
  · exact congrArg Prod.fst (hrun a ha c (hvisited c hc))
  · intro c t e hself chosen ctx' hcond
    have hchild : ∀ x ∈ [c, t, e], Scalar reg indexed x := by
      cases hsub _ hself with
      | ternary hc ht he => simp [hc, ht, he]
    refine scalar_inside (hchild c (by simp)) ?_ hidle _ hcond
    cases chosen with
    | true => exact hchild t (by simp)
    | false => exact hchild e (by simp)

/-- `x > 3 and 1 / 0 > 1`. -/
def guarded : Ast Int :=
  .binary .and (.binary .gt (.identifier "x") (.number 3)) (.binary .gt (.binary .slash (.number 1) (.number 0)) (.number 1))

def atTwo : Context Int := [({} : Frame Int).set "x" 2]

def snapshotOf (ast : Ast Int) : Snapshot Int :=
  build (treeEvaluation {} 1 (fun _ c => c) fun _ _ c => (none, c)) {} ast []

end Cxpr.EvalSnapshot
