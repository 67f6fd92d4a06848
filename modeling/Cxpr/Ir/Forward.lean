import Cxpr.Ir.Api
import Cxpr.Ir.FastSimulation

/-! Compiled expressions on a context: what the tree evaluator returns for an expression of the operator fragment, the
    executor that the compiler selected returns too, as long as the context holds numbers only. -/

namespace Cxpr.Ir
open Eval Worklist
variable {D : Type} [Double D]

omit [Double D] in
def HasKind : ResultKind → Value D → Prop
  | .double, v => ∃ d, v = .number d
  | .bool, v => ∃ b, v = .bool b
  | .unknown, _ => True

omit [Double D] in
def IsNumber (lookup : String → Option (Value D)) (name : String) : Prop :=
  ∀ v, lookup name = some v → ∃ d, v = .number d

section
variable {reg : Registry D} {env : Env D} {ast : Ast D} {v : Value D}

omit [Double D] in
theorem hasKind_ternaryKind {c t e : ResultKind} (ht : HasKind t v ∨ HasKind e v) : HasKind (ternaryKind c t e) v := by
  unfold ternaryKind
  split
  · rename_i h
    obtain ⟨-, rfl⟩ := h
    exact ht.elim id id
  · trivial

variable {a : Value D} {k : ResultKind}

theorem hasKind_minusValue (ha : HasKind .double a) (h : unaryValue .minus a = .ok v) :
    HasKind .double v := by
  obtain ⟨d, rfl⟩ := ha
  cases h
  exact ⟨_, rfl⟩

theorem hasKind_notValue (h : unaryValue .not a = .ok v) : HasKind .bool v := by
  cases a <;> cases h
  exact ⟨_, rfl⟩

theorem hasKind_binaryValues {op : BinaryOp} {b : Value D} {k' : ResultKind} (ha : HasKind k a)
    (hb : HasKind k' b) (h : binaryValues op a b = .ok v) : HasKind (binaryKind op k k') v := by
  cases op with
  | and | or => cases h
  | plus | minus | star | slash | percent | power =>
    simp only [binaryKind]
    split
    · rename_i hk
      obtain ⟨rfl, rfl⟩ := hk
      obtain ⟨x, rfl⟩ := ha
      obtain ⟨y, rfl⟩ := hb
      simp only [binaryValues, arithmeticOp] at h
      repeat' split at h
      all_goals cases h
      all_goals exact ⟨_, rfl⟩
    · trivial
  | lt | lte | gt | gte =>
    simp only [binaryKind]
    split
    · rename_i hk
      obtain ⟨rfl, rfl⟩ := hk
      obtain ⟨x, rfl⟩ := ha
      obtain ⟨y, rfl⟩ := hb
      cases h
      exact ⟨_, rfl⟩
    · trivial
  | eq | neq =>
    simp only [binaryKind]
    split
    · rename_i hk
      obtain ⟨rfl, hk⟩ := hk
      cases k with
      | unknown => exact absurd rfl hk
      | double | bool =>
        obtain ⟨x, rfl⟩ := ha
        obtain ⟨y, rfl⟩ := hb
        cases h
        exact ⟨_, rfl⟩
    · trivial

theorem hasKind_binaryMeaning {op : BinaryOp} {x y : Except Error (Value D)} {k' : ResultKind}
    (hx : ∀ a, x = .ok a → HasKind k a) (hy : ∀ b, y = .ok b → HasKind k' b) (h : binaryMeaning op x y = .ok v) :
    HasKind (binaryKind op k k') v := by
  by_cases hop : op = .and ∨ op = .or
  · obtain ⟨a, b, -, rfl, -⟩ := binaryMeaning_logical hop h
    rcases hop with rfl | rfl
    all_goals
      simp only [binaryKind]
      split
      · exact ⟨b, rfl⟩
      · trivial
  · obtain ⟨a, b, ha, hb, hvalue⟩ := binaryMeaning_eq_ok (fun h => hop (.inl h)) (fun h => hop (.inr h)) h
    exact hasKind_binaryValues (hx a ha) (hy b hb) hvalue

omit [Double D] in
theorem hasKind_ternaryMeaning {message : String} {x y z : Except Error (Value D)} {k₁ k₂ : ResultKind}
    (hy : ∀ a, y = .ok a → HasKind k₁ a) (hz : ∀ a, z = .ok a → HasKind k₂ a)
    (h : ternaryMeaning message x y z = .ok v) : HasKind (ternaryKind k k₁ k₂) v := by
  obtain ⟨b, -, h⟩ := ternaryMeaning_eq_ok h
  cases b with
  | true => exact hasKind_ternaryKind (.inl (hy v h))
  | false => exact hasKind_ternaryKind (.inr (hz v h))

theorem inferFastResultKind_sound {indexed : Bool} (hast : Scalar reg indexed ast)
    (hnames : AllNames (IsNumber env.var) (IsNumber env.param) ast) (level : Nat) (h : denote env ast = .ok v) :
    HasKind (inferFastResultKind reg level ast) v := by
  induction hast generalizing level v with
  | number | bool =>
    cases level with
    | zero => trivial
    | succ level =>
      cases h
      exact ⟨_, rfl⟩
  | identifier name | param name =>
    cases level with
    | zero => trivial
    | succ level =>
      rw [denote] at h
      split at h <;> cases h
      rename_i hv
      exact hnames v hv
  | unary op ha iha =>
    cases level with
    | zero => trivial
    | succ level =>
      rw [AllNames] at hnames
      rw [denote] at h
      obtain ⟨a, ha, hvalue⟩ := bind_eq_ok.mp h
      have hkind := iha hnames level ha
      clear h
      simp only [inferFastResultKind]
      split
      · rename_i hk
        rw [hk] at hkind
        exact hasKind_minusValue hkind hvalue
      · exact hasKind_notValue hvalue
      · trivial
  | binary op hl hr ihl ihr =>
    cases level with
    | zero => trivial
    | succ level =>
      rw [AllNames] at hnames
      rw [denote] at h
      exact hasKind_binaryMeaning (fun a => ihl hnames.1 level) (fun b => ihr hnames.2 level) h
  | ternary hc ht he ihc iht ihe =>
    cases level with
    | zero => trivial
    | succ level =>
      rw [AllNames] at hnames
      rw [denote] at h
      exact hasKind_ternaryMeaning (fun a => iht hnames.2.1 level) (fun a => ihe hnames.2.2 level) h
  | ifCall hif hc ht he argNames ihc iht ihe =>
    cases level with
    | zero => trivial
    | succ level =>
      simp only [AllNames, AllNamesList] at hnames
      simp only [denote, denoteList, ifMeaning, beq_self_eq_true, if_true] at h
      split at h
      · cases h
      · exact hasKind_ternaryMeaning (fun a => iht hnames.2.1 level) (fun a => ihe hnames.2.2.1 level) h
  | array | index => cases level <;> trivial

end

/-- The context holds numbers: its variables, and the parameters of all contexts of its chain. An evaluator attaches
    its results to the context of an evaluation and not to a parent. -/
structure AllNumbers (ctx : Context D) : Prop where
  var : ∀ name, IsNumber ctx.getTyped name
  param : ∀ f ∈ ctx, f.boolParams = ∅ ∧ f.int64Params = ∅ ∧ f.stringParams = ∅ ∧ f.arrayParams = ∅ ∧ f.structs = ∅
  scope : ∀ f ∈ ctx.tail, f.expressionScope = none

def Memos (ctx : Context D) : Set (Context D) := { c | ∃ memo, c = withMemo ctx memo }

section
variable {ctx : Context D} {name : String}

omit [Double D] in
theorem frame_getTyped_eq_none {f : Frame D} (h : f.getTyped name = none) :
    f.expressionScope.bind (· name) = none ∧ f.bools.lookup name = none ∧ f.vars.lookup name = none := by
  simp only [Frame.getTyped, Option.orElse_eq_orElse, Option.orElse_eq_or, Option.or_eq_none_iff,
    Option.map_eq_none_iff] at h
  exact ⟨h.1, h.2.1, h.2.2.2.2.2.1⟩

omit [Double D] in
theorem frame_getTyped_eq_number {f : Frame D} {d : D} (hscope : f.expressionScope.bind (· name) = none)
    (h : f.getTyped name = some (.number d)) : f.bools.lookup name = none ∧ f.vars.lookup name = some d := by
  simp only [Frame.getTyped, hscope, Option.orElse_eq_orElse, Option.orElse_eq_or,
    Option.none_or, Option.or_eq_some_iff, Option.map_eq_some_iff, Option.map_eq_none_iff, reduceCtorEq, and_false,
    exists_false, false_or, Value.number.injEq, exists_eq_right, or_false] at h
  exact ⟨h.1, h.2.2.2.2⟩

omit [Double D] in
theorem getTyped_cons (f : Frame D) (parent : Context D) (name : String) :
    Context.getTyped (f :: parent) name = (f.getTyped name).or (parent.getTyped name) := by
  rw [Context.getTyped, Option.orElse_eq_orElse, Option.orElse_eq_or]

theorem getPrehashed_cons (f : Frame D) (parent : Context D) (name : String) :
    Context.getPrehashed (f :: parent) name =
      ((f.bools.lookup name).map Double.ofBool).or ((f.vars.lookup name).or (parent.getPrehashed name)) := by
  simp only [Context.getPrehashed, Option.orElse_eq_orElse, Option.orElse_eq_or]

theorem getPrehashed_eq_none (h : ctx.getTyped name = none) : ctx.getPrehashed name = none := by
  induction ctx with
  | nil => rfl
  | cons f parent ih =>
    rw [getTyped_cons] at h
    obtain ⟨hf, hparent⟩ := Option.or_eq_none_iff.mp h
    obtain ⟨-, hbools, hvars⟩ := frame_getTyped_eq_none hf
    rw [getPrehashed_cons, hbools, hvars, ih hparent]
    rfl

omit [Double D] in
theorem getTyped_of_expressionScope {v : Value D} (h : (expressionScope ctx).bind (· name) = some v) :
    ctx.getTyped name = some v := by
  cases ctx with
  | nil => cases h
  | cons f parent =>
    have hf : f.getTyped name = some v := by
      have hscope : f.expressionScope.bind (· name) = some v := h
      rw [Frame.getTyped, hscope]
      rfl
    rw [getTyped_cons, hf, Option.some_or]

theorem loadVariableTyped_eq (ctx : Context D) (name : String) : loadVariableTyped ctx name = ctx.getTyped name := by
  simp only [loadVariableTyped, Option.orElse_eq_orElse, Option.orElse_eq_or]
  cases hscope : (expressionScope ctx).bind (· name) with
  | some v => rw [Option.some_or, getTyped_of_expressionScope hscope]
  | none =>
    cases hv : ctx.getTyped name with
    | some v => rfl
    | none =>
      rw [lookupScalar, hscope, Option.none_or, Option.none_or]
      simp only [getPrehashed_eq_none hv, Option.map_none]

theorem getPrehashed_eq (hscope : ∀ f ∈ ctx, f.expressionScope.bind (· name) = none) (h : IsNumber ctx.getTyped name) :
    (ctx.getPrehashed name).map .number = ctx.getTyped name := by
  induction ctx with
  | nil => rfl
  | cons f parent ih =>
    rw [IsNumber, getTyped_cons] at h
    rw [getPrehashed_cons, getTyped_cons]
    cases hf : f.getTyped name with
    | none =>
      obtain ⟨-, hbools, hvars⟩ := frame_getTyped_eq_none hf
      rw [hf, Option.none_or] at h
      rw [hbools, hvars, Option.map_none, Option.none_or, Option.none_or, Option.none_or]
      exact ih (fun g hg => hscope g (by simp [hg])) h
    | some v =>
      rw [hf, Option.some_or] at h
      obtain ⟨d, rfl⟩ := h v rfl
      obtain ⟨hbools, hvars⟩ := frame_getTyped_eq_number (hscope f (by simp)) hf
      rw [hbools, hvars]
      rfl

theorem lookupScalar_eq (hscope : ∀ f ∈ ctx.tail, f.expressionScope = none) (h : IsNumber ctx.getTyped name) :
    (lookupScalar ctx name).map .number = ctx.getTyped name := by
  unfold lookupScalar
  cases hv : (expressionScope ctx).bind (· name) with
  | some v =>
    have htyped := getTyped_of_expressionScope hv
    obtain ⟨d, rfl⟩ := h v htyped
    rw [htyped]
    rfl
  | none =>
    cases ctx with
    | nil => rfl
    | cons f parent =>
      refine getPrehashed_eq (List.forall_mem_cons.mpr ⟨hv, fun g hg => ?_⟩) h
      rw [hscope g hg, Option.bind_none]

omit [Double D] in
theorem params_eq (h : ∀ f ∈ ctx,
    f.boolParams = ∅ ∧ f.int64Params = ∅ ∧ f.stringParams = ∅ ∧ f.arrayParams = ∅ ∧ f.structs = ∅) (name : String) :
    ctx.getParamBool name = none ∧ ctx.getParamString name = none ∧
      ctx.getParamTyped name = (ctx.getParam name).map .number := by
  induction ctx with
  | nil => exact ⟨rfl, rfl, rfl⟩
  | cons f parent ih =>
    obtain ⟨hbools, hint64s, hstrings, harrays, hstructs⟩ := h f (by simp)
    obtain ⟨hb, hs, ht⟩ := ih fun g hg => h g (by simp [hg])
    refine ⟨?_, ?_, ?_⟩
    · rw [Context.getParamBool, hbools, hb]
      rfl
    · rw [Context.getParamString, hstrings, hs]
      rfl
    · have hdotted : f.dottedParam name = none := by
        unfold Frame.dottedParam
        split
        · rw [hstructs]
          split <;> rfl
        · rfl
      rw [Context.getParamTyped, hbools, hint64s, hstrings, harrays, hstructs, hdotted]
      cases hp : Context.getParam (f :: parent) name with
      | some d => rfl
      | none =>
        have hparent : Context.getParam parent name = none := by
          rw [Context.getParam, Option.orElse_eq_orElse, Option.orElse_eq_or, Option.or_eq_none_iff] at hp
          exact hp.2
        rw [ht, hparent]
        rfl

end

/-! ### The host of a context -/

section
variable {reg : Registry D} {ctx : Context D} {depth : Nat}

def askTree (reg : Registry D) (depth : Nat) (ctx : Context D) (ast : Ast D) : Option (Value D) :=
  match evalAst reg depth ast ctx with
  | .ok (v, _) => some v
  | .error _ => none

omit [Double D] in
theorem memoEnter_withMemo (hidle : Idle ctx) (memo : List (Ast D × Value D)) :
    memoEnter (withMemo ctx memo) = memoEnter ctx := by
  cases ctx with
  | nil => rfl
  | cons f parent =>
    have hdepth : f.evalMemoDepth = 0 := hidle f (by simp)
    simp [memoEnter, withMemo, Context.update, hdepth]

theorem evalAst_withMemo (hidle : Idle ctx) (memo : List (Ast D × Value D)) (ast : Ast D) :
    evalAst reg depth ast (withMemo ctx memo) = evalAst reg depth ast ctx := by
  unfold evalAst evalAstValue
  rw [memoEnter_withMemo hidle]

omit [Double D] in
theorem mem_memos (ctx : Context D) : ctx ∈ Memos ctx := by
  cases ctx with
  | nil => exact ⟨[], rfl⟩
  | cons f parent => exact ⟨f.evalMemo, rfl⟩

variable {c : Context D}

omit [Double D] in
theorem getTyped_of_mem (hc : c ∈ Memos ctx) (name : String) : c.getTyped name = ctx.getTyped name := by
  obtain ⟨memo, rfl⟩ := hc
  exact congrFun (congrArg Env.var (env_withMemo ctx memo)) name

omit [Double D] in
theorem getParam_of_mem (hc : c ∈ Memos ctx) (name : String) : c.getParam name = ctx.getParam name := by
  obtain ⟨memo, rfl⟩ := hc
  cases ctx <;> rfl

theorem lookupScalar_of_mem (hc : c ∈ Memos ctx) (name : String) :
    lookupScalar c name = lookupScalar ctx name := by
  obtain ⟨memo, rfl⟩ := hc
  cases ctx <;> rfl

omit [Double D] in
theorem loadParamTyped_of_mem (hc : c ∈ Memos ctx) (name : String) :
    loadParamTyped c name = loadParamTyped ctx name := by
  obtain ⟨memo, rfl⟩ := hc
  cases ctx <;> rfl

theorem contextHost_answers (hctx : AllNumbers ctx) (hidle : Idle ctx) :
    Answers reg false (contextHost reg depth) (Memos ctx) ctx.env (askTree reg depth ctx) where
  var c hc ip name := by
    show Except.ok (loadVariableTyped c name, c) = _
    rw [loadVariableTyped_eq, getTyped_of_mem hc]
    rfl
  param c hc ip name := by
    obtain ⟨hbool, hstring, htyped⟩ := params_eq hctx.param name
    show Except.ok (loadParamTyped c name, c) = Except.ok (ctx.getParamTyped name, c)
    rw [loadParamTyped_of_mem hc, loadParamTyped, hbool, hstring, htyped]
    rfl
  numberParam c hc ip name := by
    obtain ⟨-, -, htyped⟩ := params_eq hctx.param name
    show Except.ok (c.getParam name, c) = Except.ok ((ctx.getParamTyped name).bind constantNumber, c)
    rw [getParam_of_mem hc, htyped]
    cases ctx.getParam name <;> rfl
  ast c hc a ha := by
    obtain ⟨memo, rfl⟩ := hc
    have hrun : (contextHost reg depth).evalAst a (withMemo ctx memo) = evalAst reg depth a ctx :=
      evalAst_withMemo hidle memo a
    rw [hrun, askTree]
    cases h : evalAst reg depth a ctx with
    | error e => exact ⟨e, rfl⟩
    | ok r =>
      obtain ⟨v, ctx'⟩ := r
      obtain ⟨-, -, rfl⟩ := evalAst_eq_ok ha hidle h
      exact ⟨_, ⟨[], rfl⟩, rfl⟩
  index h := by cases h

theorem contextHost_numbers (hctx : AllNumbers ctx) :
    Numbers (contextHost reg depth) (Memos ctx) (fun _ => True) (fun _ => True) where
  var c hc ip name _ := by
    refine ⟨lookupScalar ctx name, ?_, ?_⟩
    · show Except.ok (loadVariableTyped c name, c) = _
      rw [loadVariableTyped_eq, getTyped_of_mem hc, lookupScalar_eq hctx.scope (hctx.var name)]
    · show Except.ok (lookupScalar c name, c) = _
      rw [lookupScalar_of_mem hc]
  param c hc ip name _ := by
    obtain ⟨hbool, hstring, -⟩ := params_eq hctx.param name
    refine ⟨ctx.getParam name, ?_, ?_⟩
    · show Except.ok (loadParamTyped c name, c) = _
      rw [loadParamTyped_of_mem hc, loadParamTyped, hbool, hstring]
      rfl
    · show Except.ok (c.getParam name, c) = _
      rw [getParam_of_mem hc]

end

section
variable {reg : Registry D} {ctx ctx' : Context D} {ast : Ast D} {v : Value D}

omit [Double D] in
theorem isNumber_param (hctx : AllNumbers ctx) (name : String) : IsNumber ctx.env.param name := by
  intro v h
  obtain ⟨-, -, htyped⟩ := params_eq hctx.param name
  have hv : (ctx.getParam name).map .number = some v := htyped.symm.trans h
  obtain ⟨d, -, rfl⟩ := Option.map_eq_some_iff.mp hv
  exact ⟨d, rfl⟩

omit [Double D] in
theorem env_scalar (hctx : AllNumbers ctx) : ctx.env.Scalar where
  var name v h := by
    obtain ⟨d, rfl⟩ := hctx.var name v h
    rfl
  param name v h := by
    obtain ⟨d, rfl⟩ := isNumber_param hctx name v h
    rfl

theorem compiledEvalValue_of_execTyped {code : Program D} {depth level : Nat} (hast : Scalar reg false ast)
    (hctx : AllNumbers ctx) (hcode : compile ast reg = .ok code) (hden : denote ctx.env ast = .ok v)
    (h : execTyped code (contextHost reg depth) [] ctx = some (.ok (v, ctx'))) :
    compiledEvalValue ⟨code, validatedKind (inferFastResultKind reg level ast) code⟩ reg depth ctx = .ok (v, ctx') := by
  have hoperators := compile_operator hast
    (allNames_of_forall hast (fun _ => trivial) (fun _ => trivial)) hcode
  have hnumbers : Numbers (contextHost reg depth) (Memos ctx) (fun _ => True) (fun _ => True) := contextHost_numbers hctx
  have hkind := inferFastResultKind_sound hast (allNames_of_forall hast hctx.var (isNumber_param hctx)) level hden
  have htyped : outcome (execTyped code (contextHost reg depth) [] ctx) = .ok (v, ctx') := by rw [h]; rfl
  cases hinfer : inferFastResultKind reg level ast with
  | unknown => exact htyped
  | double =>
    rw [hinfer] at hkind
    obtain ⟨d, rfl⟩ := hkind
    simp only [validatedKind]
    by_cases hvalid : validateScalarFastProgram code = true
    · have hfast := execScalarFast_of_execTyped hnumbers hoperators hvalid (mem_memos ctx) h
      simp only [hvalid, if_true, compiledEvalValue, h, hfast, outcome, asDouble]
      split <;> rfl
    · simp only [hvalid, compiledEvalValue]
      exact htyped
  | bool =>
    simp only [validatedKind]
    by_cases hvalid : validateBoolFastProgram code = true
    · obtain ⟨c, rfl, hfast⟩ := execBoolFast_of_execTyped hnumbers hoperators hvalid (mem_memos ctx) h
      simp only [hvalid, if_true, compiledEvalValue, hfast, outcome]
    · simp only [hvalid, compiledEvalValue]
      exact htyped

/-- Forward simulation: an expression of the operator fragment that the tree evaluator evaluates on a context of
    numbers has the same value when it is compiled, whichever executor the compiler selects. -/
theorem compiledEval_of_evalAst (depth depth' : Nat) (hast : Scalar reg false ast)
    (hdepth : operandDepth ast ≤ stackCapacity) (hctx : AllNumbers ctx) (hidle : Idle ctx)
    (h : evalAst reg depth ast ctx = .ok (v, ctx')) :
    ∃ ctx'', compiledEval ast reg depth' ctx = .ok (v, ctx'') := by
  obtain ⟨⟨t, ht⟩, hden, -⟩ := evalAst_eq_ok hast hidle h
  have hmeaning : compiledMeaning reg ctx.env (askTree reg depth' ctx) ast = some v :=
    compiledMeaning_of_denote (env_scalar hctx) hast hden
  have hhost : Answers reg false (contextHost reg depth') (Memos ctx) ctx.env (askTree reg depth' ctx) :=
    contextHost_answers hctx hidle
  obtain ⟨code, hcode, hrun⟩ := execTyped_spec hhost hast (mem_memos ctx)
  rcases hrun with ⟨-, hnone | hover⟩ | ⟨w, c, hw, -, hrun⟩
  · rw [hmeaning] at hnone
    cases hnone
  · omega
  · rw [hmeaning] at hw
    cases hw
    refine ⟨c, bind_eq_ok.mpr ⟨⟨code, validatedKind (inferFastResultKind reg inferLevels ast) code⟩, ?_, ?_⟩⟩
    · exact bind_eq_ok.mpr ⟨t, ht, bind_eq_ok.mpr ⟨code, hcode, rfl⟩⟩
    · exact compiledEvalValue_of_execTyped hast hctx hcode hden hrun

end

theorem compiledEval_if_square : ∃ ctx', compiledEval
    (.call "if" [.binary .and (.binary .gt (.binary .star (.identifier "x") (.identifier "x")) (.number 2))
      (.unary .not (.bool false)), .unary .minus (.identifier "x"), .number (1 : Int)] [])
    { entries := [ternaryEntry "if" cxprIf] } 1 [{ vars := AList.singleton "x" 3 }] = .ok (.number (-3), ctx') := by
  have hif : Registry.BuiltinIf (D := Int) { entries := [ternaryEntry "if" cxprIf] } := rfl
  have hx : Scalar (D := Int) { entries := [ternaryEntry "if" cxprIf] } false (.identifier "x") := .identifier "x"
  have hcond := Scalar.binary .and (.binary .gt (.binary .star hx hx) (.number (v := 2) rfl)) (.unary .not (.bool false))
  have hvar : ∀ name, IsNumber (Context.getTyped (D := Int) [{ vars := AList.singleton "x" 3 }]) name := by
    intro name v hv
    have hvars : ∃ d, (AList.singleton "x" 3 : NameMap Int).lookup name = some d ∧ Value.number d = v := by
      simpa [Context.getTyped, Frame.getTyped] using hv
    obtain ⟨d, -, rfl⟩ := hvars
    exact ⟨d, rfl⟩
  have hctx : AllNumbers (D := Int) [{ vars := AList.singleton "x" 3 }] :=
    ⟨hvar, List.forall_mem_singleton.mpr ⟨rfl, rfl, rfl, rfl, rfl⟩, by simp⟩
  exact compiledEval_of_evalAst 1 1 (.ifCall hif hcond (.unary .minus hx) (.number rfl) []) (by decide) hctx
    (by simp [Idle]) rfl

end Cxpr.Ir
