import Cxpr.Eval.Scalar
import Cxpr.Model.Order

/-! The tree evaluator as the runtime of a session. A scalar binding depends on the expressions it names and on no
    others. -/

namespace Cxpr.Model
variable {D χ : Type}

def collect {α : Type} (names : List String) (get : String → Option α) : NameMap α :=
  names.foldr (fun n store => match get n with | some a => store.insert n a | none => store) ∅

theorem lookup_collect {α : Type} (names : List String) (get : String → Option α) (n : String) :
    (collect names get).lookup n = if n ∈ names then get n else none := by
  induction names with
  | nil => rfl
  | cons m names ih =>
    have hcons : collect (m :: names) get = match get m with
        | some a => (collect names get).insert m a
        | none => collect names get := rfl
    rw [hcons]
    by_cases hm : n = m
    · subst hm
      cases hget : get n with
      | none => simp [ih, hget]
      | some a => simp
    · cases hget : get m with
      | none => simp [ih, hm]
      | some a => simp [ih, hm, AList.lookup_insert_ne hm]

def View.frame (view : View D) (names : List String) : Frame D where
  vars := collect names fun n => (view.cell n).var
  bools := collect names fun n => (view.cell n).bool
  int64s := collect names fun n => (view.cell n).int64
  strings := collect names fun n => (view.cell n).string
  arrays := collect names fun n => (view.cell n).array
  structs := collect names fun n => (view.cell n).struct
  params := view.params.params
  boolParams := view.params.boolParams
  int64Params := view.params.int64Params
  stringParams := view.params.stringParams
  arrayParams := view.params.arrayParams

theorem cell_frame (view : View D) (names : List String) (n : String) :
    (view.frame names).cell n = if n ∈ names then view.cell n else {} := by
  simp only [Frame.cell, View.frame, lookup_collect]
  split <;> rfl

def paramNames (name : String) : List String :=
  match name.splitOn "." with
  | [root, _] => [name, root]
  | _ => [name]

mutual

def astNames : Ast D → List String
  | .identifier name => [name]
  | .param name => paramNames name
  | .unary _ a => astNames a
  | .binary _ l r => astNames l ++ astNames r
  | .ternary c t e => astNames c ++ (astNames t ++ astNames e)
  | .call _ args _ => astNamesList args
  | .array es => astNamesList es
  | .index t i => astNames t ++ astNames i
  | _ => []

def astNamesList : List (Ast D) → List String
  | [] => []
  | a :: as => astNames a ++ astNamesList as

end

variable [Double D]

/-- `cxpr_eval_ast`. -/
def treeValue (reg : Registry D) (depth : Nat) (names : List String) (ast : Ast D) (view : View D) : Except Error (Value D) :=
  (Eval.evalAst reg depth ast [view.frame names]).map (·.1)

/-- The tree evaluator as a runtime. An evaluation that calls no producer caches no struct and ticks no child. -/
def treeRuntime (reg : Registry D) (depth : Nat) (names : List String) (nan : D) : Runtime D χ where
  evalAst ast view eff := (treeValue reg depth names ast view, eff)
  evalAstNumber ast view eff :=
    (treeValue reg depth names ast view >>= fun v => Eval.requireNumber v "Expression did not evaluate to double", eff)
  nan := nan

omit [Double D] in
structure EnvAgree (names : List String) (env env' : Env D) : Prop where
  var : ∀ n ∈ names, env'.var n = env.var n
  param : ∀ n, paramNames n ⊆ names → env'.param n = env.param n

variable {env env' : Env D} {ast : Ast D} {view view' : View D}

omit [Double D] in
theorem EnvAgree.mono {names names' : List String} (h : EnvAgree names env env') (hsub : names' ⊆ names) :
    EnvAgree names' env env' :=
  ⟨fun n hn => h.var n (hsub hn), fun n hn => h.param n (List.Subset.trans hn hsub)⟩

theorem denoteList_congr {es : List (Ast D)}
    (ih : ∀ e ∈ es, EnvAgree (astNames e) env env' → Eval.denote env' e = Eval.denote env e)
    (h : EnvAgree (astNamesList es) env env') : Eval.denoteList env' es = Eval.denoteList env es := by
  induction es with
  | nil => rfl
  | cons e es ihes =>
    rw [astNamesList] at h
    have hhead := ih e List.mem_cons_self (h.mono (List.subset_append_left _ _))
    have htail := ihes (fun e' he' => ih e' (List.mem_cons_of_mem e he')) (h.mono (List.subset_append_right _ _))
    rw [Eval.denoteList, Eval.denoteList, hhead, htail]

theorem denote_congr {reg : Registry D} {indexed : Bool} (hast : Scalar reg indexed ast)
    (h : EnvAgree (astNames ast) env env') : Eval.denote env' ast = Eval.denote env ast := by
  induction hast with
  | number _ => rfl
  | bool b => rfl
  | identifier name =>
    have hname := h.var name (by simp [astNames])
    rw [Eval.denote, Eval.denote, hname]
  | param name =>
    have hname := h.param name (by rw [astNames]; exact List.Subset.refl _)
    rw [Eval.denote, Eval.denote, hname]
  | unary op _ ih => rw [Eval.denote, Eval.denote, ih h]
  | binary op _ _ ihl ihr =>
    rw [astNames] at h
    rw [Eval.denote, Eval.denote, ihl (h.mono (List.subset_append_left _ _)), ihr (h.mono (List.subset_append_right _ _))]
  | ternary _ _ _ ihc iht ihe =>
    rw [astNames] at h
    have hbranches := h.mono (List.subset_append_right _ _)
    rw [Eval.denote, Eval.denote, ihc (h.mono (List.subset_append_left _ _)),
      iht (hbranches.mono (List.subset_append_left _ _)), ihe (hbranches.mono (List.subset_append_right _ _))]
  | ifCall hif _ _ _ argNames ihc iht ihe =>
    simp only [astNames, astNamesList] at h
    have hbranches := h.mono (List.subset_append_right _ _)
    have helse := hbranches.mono (List.subset_append_right _ _)
    simp only [Eval.denote, Eval.denoteList, ihc (h.mono (List.subset_append_left _ _)),
      iht (hbranches.mono (List.subset_append_left _ _)), ihe (helse.mono (List.subset_append_left _ _))]
  | array hi _ ih =>
    rw [astNames] at h
    rw [Eval.denote, Eval.denote, denoteList_congr ih h]
  | index hi hreg _ _ iht ihi =>
    rw [astNames] at h
    rw [Eval.denote, Eval.denote, iht (h.mono (List.subset_append_left _ _)), ihi (h.mono (List.subset_append_right _ _))]

omit [Double D] in
theorem envAgree_frame {names : List String} (all : List String) (hcell : ∀ n ∈ names, view'.cell n = view.cell n)
    (hparams : view'.params = view.params) :
    EnvAgree names (Context.env [view.frame all]) (Context.env [view'.frame all]) := by
  have hcells : ∀ n ∈ names, (view'.frame all).cell n = (view.frame all).cell n := by
    intro n hn
    rw [cell_frame, cell_frame, hcell n hn]
  refine ⟨fun n hn => ?_, fun n hn => ?_⟩
  · show ((view'.frame all).getTyped n <|> none) = ((view.frame all).getTyped n <|> none)
    rw [Frame.getTyped_eq_read _ n rfl, Frame.getTyped_eq_read _ n rfl, hcells n hn]
    rfl
  · have hstruct : ∀ m ∈ names, (view'.frame all).structs.lookup m = (view.frame all).structs.lookup m :=
      fun m hm => congrArg Cell.struct (hcells m hm)
    have hn' : n ∈ names := by
      apply hn
      unfold paramNames
      split <;> simp
    have hdotted : (view'.frame all).dottedParam n = (view.frame all).dottedParam n := by
      unfold Frame.dottedParam
      unfold paramNames at hn
      split
      · rename_i root field heq
        rw [heq] at hn
        rw [hstruct root (hn (by simp))]
      · rfl
    show Context.getParamTyped [view'.frame all] n = Context.getParamTyped [view.frame all] n
    unfold Context.getParamTyped
    rw [hstruct n hn', hdotted]
    simp only [View.frame, hparams, Context.getParam, Context.getParamTyped]

variable {reg : Registry D} {indexed : Bool} {depth : Nat} {all : List String} {nan : D}

theorem treeValue_congr (depth : Nat) (all : List String) (hast : Scalar reg indexed ast)
    (hcell : ∀ n ∈ astNames ast, view'.cell n = view.cell n) (hparams : view'.params = view.params) :
    treeValue reg depth all ast view' = treeValue reg depth all ast view := by
  have hdenote := denote_congr hast (envAgree_frame all hcell hparams)
  have hidle : ∀ v : View D, Eval.Idle [v.frame all] := by
    intro v f hf
    obtain rfl : v.frame all = f := by simpa using hf
    rfl
  unfold treeValue Eval.evalAst
  cases typecheck ast reg with
  | error err => rfl
  | ok type =>
    cases depth with
    | zero => rfl
    | succ depth =>
      have hspec := Eval.evalAstValue_spec hast (hidle view) depth
      have hspec' := Eval.evalAstValue_spec hast (hidle view') depth
      rw [hdenote] at hspec'
      cases hvalue : Eval.denote (Context.env [view.frame all]) ast with
      | error err =>
        rw [hvalue] at hspec hspec'
        show Except.map _ (Eval.evalAstValue _ _ _ _) = Except.map _ (Eval.evalAstValue _ _ _ _)
        rw [hspec, hspec']
      | ok v =>
        rw [hvalue] at hspec hspec'
        show Except.map _ (Eval.evalAstValue _ _ _ _) = Except.map _ (Eval.evalAstValue _ _ _ _)
        rw [hspec, hspec']
        rfl

theorem treeRuntime_eval_congr {kind : ResultKind} (hast : Scalar reg indexed ast)
    (hcell : ∀ n ∈ astNames ast, view'.cell n = view.cell n) (hparams : view'.params = view.params)
    (eff eff' : Effects D χ) :
    (treeRuntime reg depth all nan).eval kind ast view' eff' =
      (((treeRuntime reg depth all nan).eval kind ast view eff).1, eff') := by
  have hvalue := treeValue_congr depth all hast hcell hparams
  cases kind with
  | number | int64 | unknown => simp only [Runtime.eval, treeRuntime, hvalue]
  | bool =>
    simp only [Runtime.eval, Runtime.evalAstBoolResult, treeRuntime, hvalue]
    cases treeValue reg depth all ast view with
    | error err => rfl
    | ok v => cases v <;> rfl

omit [Double D] in
def DependsOn (a b : Binding D) : Prop := b.kind = .expr ∧ b.name ∈ astNames a.ast

omit [Double D] in
instance (a b : Binding D) : Decidable (DependsOn a b) := inferInstanceAs (Decidable (_ ∧ _))

omit [Double D] in
theorem cell_view_assign {a b : Binding D} (hab : ¬ DependsOn a b) (view : View D) (v : Value D) :
    ∀ n ∈ astNames a.ast, (view.assign b v).cell n = view.cell n := by
  intro n hn
  unfold View.assign
  cases hk : b.kind with
  | stateUpdate => rfl
  | expr =>
    have hne : n ≠ b.name := fun h => hab ⟨hk, h ▸ hn⟩
    exact if_neg hne

omit [Double D] in
theorem params_view_assign (view : View D) (b : Binding D) (v : Value D) : (view.assign b v).params = view.params := by
  unfold View.assign
  cases b.kind <;> rfl

theorem dependencies_of_scalar {bs : List (Binding D)} (hbs : ∀ b ∈ bs, Scalar reg indexed b.ast) :
    Dependencies (treeRuntime reg depth all nan : Runtime D χ) bs DependsOn := by
  intro a ha b hb hab hba view eff v eff₁ w eff₂ h₁ h₂
  have hafter := cell_view_assign hba view v
  have hbefore := cell_view_assign hab view w
  rw [treeRuntime_eval_congr (hbs a ha) (fun _ _ => rfl) rfl eff eff] at h₁
  rw [treeRuntime_eval_congr (hbs b hb) hafter (params_view_assign view a v) eff eff₁] at h₂
  obtain ⟨hv, rfl⟩ := Prod.mk.inj h₁
  obtain ⟨hw, rfl⟩ := Prod.mk.inj h₂
  refine ⟨eff, ?_, ?_⟩
  · rw [treeRuntime_eval_congr (hbs b hb) (fun _ _ => rfl) rfl eff eff, hw]
  · rw [treeRuntime_eval_congr (hbs a ha) hbefore (params_view_assign view b w) eff eff, hv]

end Cxpr.Model
