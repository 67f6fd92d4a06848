import Cxpr.Eval.Tree
import Cxpr.Lib.Computes

/-! The operator fragment of the language and its meaning: literals, names, operators, conditionals and indexing, as a
    function of the values that the names have. The tree evaluator computes this meaning on every context, whatever
    its memo holds. -/

namespace Cxpr
open Stateful
variable {D : Type} [Double D]

structure Env (D : Type) where
  var : String → Option (Value D)
  param : String → Option (Value D)

def Value.isScalar {D : Type} : Value D → Bool
  | .number _ | .bool _ => true
  | _ => false

structure Env.Scalar {D : Type} (env : Env D) : Prop where
  var : ∀ name v, env.var name = some v → v.isScalar = true
  param : ∀ name v, env.param name = some v → v.isScalar = true

def Context.env {D : Type} (ctx : Context D) : Env D := ⟨ctx.getTyped, ctx.getParamTyped⟩

def ternaryAdapter (f : D → D → D → D) : List D → D
  | [a, b, c] => f a b c
  | _ => Double.zero

/-- `cxpr_registry_add_ternary`. -/
def ternaryEntry (name : String) (f : D → D → D → D) : FuncEntry D :=
  { name, syncFunc := some (ternaryAdapter f), native := .ternary f, minArgs := 3, maxArgs := 3, returnType := some .number }

def cxprIf (cond a b : D) : D := if Double.ne cond Double.zero then a else b

/-- `if` is the function of `cxpr_register_math`. -/
def Registry.BuiltinIf (reg : Registry D) : Prop := reg.find "if" = some (ternaryEntry "if" cxprIf)

omit [Double D] in
def Registry.PlainIndex (reg : Registry D) : Prop :=
  reg.lookbackResolver = none ∧ reg.hasIndexCapabilities = false ∧ ∀ target, reg.selectIndexCapability target = .ok none

/-- Expressions of literals, names, operators and conditionals and, if they are `indexed`, arrays and index accesses.
    A number literal has no sign: the lexer reads `-1` as an operator and a literal. -/
inductive Scalar (reg : Registry D) (indexed : Bool) : Ast D → Prop
  | number {v : D} (unsigned : Double.signbit v = false) : Scalar reg indexed (.number v)
  | bool (b : Bool) : Scalar reg indexed (.bool b)
  | identifier (name : String) : Scalar reg indexed (.identifier name)
  | param (name : String) : Scalar reg indexed (.param name)
  | unary (op : UnaryOp) {a : Ast D} (ha : Scalar reg indexed a) : Scalar reg indexed (.unary op a)
  | binary (op : BinaryOp) {l r : Ast D} (hl : Scalar reg indexed l) (hr : Scalar reg indexed r) :
      Scalar reg indexed (.binary op l r)
  | ternary {c t e : Ast D} (hc : Scalar reg indexed c) (ht : Scalar reg indexed t) (he : Scalar reg indexed e) :
      Scalar reg indexed (.ternary c t e)
  | ifCall (hif : reg.BuiltinIf) {c t e : Ast D} (hc : Scalar reg indexed c) (ht : Scalar reg indexed t)
      (he : Scalar reg indexed e) (argNames : List (Option String)) : Scalar reg indexed (.call "if" [c, t, e] argNames)
  | array (hi : indexed = true) {es : List (Ast D)} (hes : ∀ e ∈ es, Scalar reg indexed e) :
      Scalar reg indexed (.array es)
  | index (hi : indexed = true) (hreg : reg.PlainIndex) {t i : Ast D} (ht : Scalar reg indexed t)
      (hi' : Scalar reg indexed i) : Scalar reg indexed (.index t i)

namespace Eval

def binaryMeaning (op : BinaryOp) (left right : Except Error (Value D)) : Except Error (Value D) := do
  let l ← left
  match op with
  | .and =>
    if ← requireBool l "Logical operators require bool" then
      return .bool (← requireBool (← right) "Logical operators require bool")
    else return .bool false
  | .or =>
    if ← requireBool l "Logical operators require bool" then return .bool true
    else return .bool (← requireBool (← right) "Logical operators require bool")
  | op => binaryValues op l (← right)

omit [Double D] in
def ternaryMeaning (message : String) (c t e : Except Error (Value D)) : Except Error (Value D) := do
  if ← requireBool (← c) message then t else e

def indexMeaning (target index : Except Error (Value D)) : Except Error (Value D) := do
  match ← target with
  | .array values =>
    match Ir.constantIndex (some (← index)) with
    | none => .error ⟨.invalidIndex, "Array index must be a finite non-negative integer"⟩
    | some i =>
      match values[i]? with
      | some v => .ok v
      | none => .error ⟨.indexOutOfRange, "Array index is out of range"⟩
  | _ => .error ⟨.typeMismatch, "Index target is not indexable"⟩

def ifMeaning (args : List (Except Error (Value D))) (argNames : List (Option String)) : Except Error (Value D) :=
  match args with
  | [c, t, e] =>
    if Ast.callUsesNamedArgs 3 argNames then
      .error ⟨.syntaxError, "Named arguments are not supported for this function"⟩
    else ternaryMeaning "if() condition must be bool" c t e
  | _ => .error ⟨.wrongArity, "Wrong number of arguments"⟩

mutual

def denote (env : Env D) : Ast D → Except Error (Value D)
  | .number v => .ok (.number v)
  | .bool b => .ok (.bool b)
  | .identifier name =>
    match env.var name with
    | some v => .ok v
    | none => .error ⟨.unknownIdentifier, unknownMessage "Unknown identifier" name⟩
  | .param name =>
    match env.param name with
    | some v => .ok v
    | none => .error ⟨.unknownIdentifier, unknownParameterMessage name⟩
  | .unary op a => denote env a >>= unaryValue op
  | .binary op l r => binaryMeaning op (denote env l) (denote env r)
  | .ternary c t e =>
    ternaryMeaning "Ternary condition must be bool" (denote env c) (denote env t) (denote env e)
  | .call name args argNames =>
    if name == "if" then ifMeaning (denoteList env args) argNames
    else .error ⟨.syntaxError, "Unknown AST node type"⟩
  | .array es => do return .array (← (denoteList env es).mapM id)
  | .index t i => indexMeaning (denote env t) (denote env i)
  | .int64 _ | .string _ | .record _ _ | .fieldAccess _ _ | .fieldOf _ _ | .chainAccess _
  | .producerAccess _ _ _ _ => .error ⟨.syntaxError, "Unknown AST node type"⟩

def denoteList (env : Env D) : List (Ast D) → List (Except Error (Value D))
  | [] => []
  | a :: as => denote env a :: denoteList env as

end

section
variable {indexed : Bool} {reg : Registry D} {env : Env D}

variable {a v : Value D} {op : BinaryOp} {message : String} {x y : Except Error (Value D)}
variable {deeper : Ast D → EvalM D (Value D)}

theorem unaryValue_isScalar {op : UnaryOp} (ha : a.isScalar = true) (h : unaryValue op a = .ok v) :
    v.isScalar = true := by
  cases op <;> cases a <;> cases ha <;> cases h <;> rfl

theorem binaryValues_isScalar {b : Value D} (ha : a.isScalar = true) (hb : b.isScalar = true)
    (h : binaryValues op a b = .ok v) :
    v.isScalar = true ∧ ((∃ x y, a = .number x ∧ b = .number y) ∨ ∃ x y, a = .bool x ∧ b = .bool y) := by
  cases a with
  | number x =>
    cases b with
    | number y =>
      refine ⟨?_, .inl ⟨x, y, rfl, rfl⟩⟩
      cases op with
      | slash | percent =>
        simp only [binaryValues, arithmeticOp] at h
        split at h <;> cases h
        rfl
      | _ => cases h <;> rfl
    | bool y => cases op <;> cases h
    | _ => cases hb
  | bool x =>
    cases b with
    | bool y =>
      refine ⟨?_, .inr ⟨x, y, rfl, rfl⟩⟩
      cases op <;> cases h <;> rfl
    | number y => cases op <;> cases h
    | _ => cases hb
  | _ => cases ha

omit [Double D] in
theorem ternaryMeaning_eq_ok {z : Except Error (Value D)}
    (h : ternaryMeaning message x y z = .ok v) : ∃ b, x = .ok (.bool b) ∧ (if b then y else z) = .ok v := by
  obtain ⟨a, ha, h⟩ := bind_eq_ok.mp h
  obtain ⟨b, hb, h⟩ := bind_eq_ok.mp h
  cases a <;> cases hb
  exact ⟨_, ha, h⟩

omit [Double D] in
theorem requireBool_eq_ok {b : Bool} (h : requireBool a message = .ok b) :
    a = .bool b := by
  cases a <;> cases h
  rfl

theorem binaryMeaning_logical (hop : op = .and ∨ op = .or)
    (h : binaryMeaning op x y = .ok v) :
    ∃ a b, x = .ok (.bool a) ∧ v = .bool b ∧
      (a = decide (op = .and) ∧ y = .ok (.bool b) ∨ a = decide (op = .or) ∧ b = a) := by
  obtain ⟨l, hl, hafter⟩ := bind_eq_ok.mp h
  clear h
  rcases hop with rfl | rfl
  all_goals
    obtain ⟨a, ha, hbranch⟩ := bind_eq_ok.mp hafter
    clear hafter
    obtain rfl := requireBool_eq_ok ha
    cases a
  case inl.false | inr.true =>
    cases hbranch
    exact ⟨_, _, hl, rfl, .inr ⟨rfl, rfl⟩⟩
  all_goals
    obtain ⟨r, hr, hright⟩ := bind_eq_ok.mp hbranch
    obtain ⟨b, hb, hresult⟩ := bind_eq_ok.mp hright
    obtain rfl := requireBool_eq_ok hb
    cases hresult
    exact ⟨_, b, hl, rfl, .inl ⟨rfl, hr⟩⟩

theorem denote_isScalar {ast : Ast D} (henv : env.Scalar) (hast : Scalar reg false ast)
    (h : denote env ast = .ok v) : v.isScalar = true := by
  induction hast generalizing v with
  | number | bool =>
    cases h
    rfl
  | identifier name =>
    rw [denote] at h
    split at h <;> cases h
    rename_i hv
    exact henv.var name v hv
  | param name =>
    rw [denote] at h
    split at h <;> cases h
    rename_i hv
    exact henv.param name v hv
  | unary op ha iha =>
    rw [denote] at h
    obtain ⟨a, ha, h⟩ := bind_eq_ok.mp h
    exact unaryValue_isScalar (iha ha) h
  | binary op hl hr ihl ihr =>
    rw [denote] at h
    by_cases hop : op = .and ∨ op = .or
    · obtain ⟨a, b, -, rfl, -⟩ := binaryMeaning_logical hop h
      rfl
    · obtain ⟨a, ha, h⟩ := bind_eq_ok.mp h
      cases op <;> first
        | exact absurd (.inl rfl) hop
        | exact absurd (.inr rfl) hop
        | skip
      all_goals
        obtain ⟨b, hb, h⟩ := bind_eq_ok.mp h
        exact (binaryValues_isScalar (ihl ha) (ihr hb) h).1
  | ternary hc ht he ihc iht ihe =>
    rw [denote] at h
    obtain ⟨b, -, h⟩ := ternaryMeaning_eq_ok h
    cases b with
    | true => exact iht h
    | false => exact ihe h
  | ifCall hif hc ht he argNames ihc iht ihe =>
    simp only [denote, denoteList, ifMeaning, beq_self_eq_true, if_true] at h
    split at h
    · cases h
    · obtain ⟨b, -, h⟩ := ternaryMeaning_eq_ok h
      cases b with
      | true => exact iht h
      | false => exact ihe h
  | array hi | index hi => cases hi

omit [Double D] in
theorem callUsesNamedArgs_congr {n : Nat} {ns ns' : List (Option String)} (h : argNamesEqual n ns ns' = true) :
    Ast.callUsesNamedArgs n ns = Ast.callUsesNamedArgs n ns' := by
  have hjoin : ∀ i < n, ns[i]?.join = ns'[i]?.join := by
    simpa [argNamesEqual] using h
  have hone : ∀ ms ms' : List (Option String), (∀ i < n, ms[i]?.join = ms'[i]?.join) →
      Ast.callUsesNamedArgs n ms = true → Ast.callUsesNamedArgs n ms' = true := by
    intro ms ms' hms hany
    obtain ⟨o, hmem, hsome⟩ := List.any_eq_true.mp hany
    obtain ⟨i, hi⟩ := List.mem_iff_getElem?.mp hmem
    rw [List.getElem?_take] at hi
    split at hi
    · rename_i hlt
      have hj := hms i hlt
      rw [hi] at hj
      obtain ⟨name, rfl⟩ := Option.isSome_iff_exists.mp hsome
      refine List.any_eq_true.mpr ⟨some name, List.mem_iff_getElem?.mpr ⟨i, ?_⟩, rfl⟩
      rw [List.getElem?_take, if_pos hlt]
      cases hms' : ms'[i]? with
      | none => simp [hms'] at hj
      | some o' => simpa [hms', eq_comm] using hj
    · cases hi
  rw [Bool.eq_iff_iff]
  exact ⟨hone ns ns' hjoin, hone ns' ns fun i hi => (hjoin i hi).symm⟩

theorem denote_of_astEqual {a b : Ast D} (ha : Scalar reg indexed a) (hb : Scalar reg indexed b)
    (h : astEqual a b = true) : denote env a = denote env b := by
  induction ha generalizing b with
  | number hv =>
    cases hb with
    | number hw =>
      simp only [astEqual] at h
      rw [Double.eq_of_signbit _ _ h (hv.trans hw.symm)]
    | _ => simp [astEqual] at h
  | bool | identifier | param =>
    cases hb <;> simp [astEqual] at h
    rw [h]
  | unary op ha iha =>
    cases hb with
    | unary op' hb =>
      simp only [astEqual, Bool.and_eq_true, beq_iff_eq] at h
      rw [denote, denote, iha hb h.2, h.1]
    | _ => simp [astEqual] at h
  | binary op hl hr ihl ihr =>
    cases hb with
    | binary op' hl' hr' =>
      simp only [astEqual, Bool.and_eq_true, beq_iff_eq] at h
      rw [denote, denote, ihl hl' h.1.2, ihr hr' h.2, h.1.1]
    | _ => simp [astEqual] at h
  | ternary hc ht he ihc iht ihe =>
    cases hb with
    | ternary hc' ht' he' =>
      simp only [astEqual, Bool.and_eq_true] at h
      rw [denote, denote, ihc hc' h.1.1, iht ht' h.1.2, ihe he' h.2]
    | _ => simp [astEqual] at h
  | ifCall hif hc ht he ns ihc iht ihe =>
    cases hb with
    | ifCall _ hc' ht' he' ns' =>
      simp only [astEqual, astEqualList, Bool.and_eq_true] at h
      obtain ⟨⟨-, hns⟩, h₁, h₂, h₃, -⟩ := h
      have hnamed : Ast.callUsesNamedArgs 3 ns = Ast.callUsesNamedArgs 3 ns' := callUsesNamedArgs_congr hns
      simp only [denote, denoteList, ifMeaning, ihc hc' h₁, iht ht' h₂, ihe he' h₃, hnamed]
    | _ => simp [astEqual] at h
  | array hi hes ih =>
    cases hb with
    | array hi' hes' =>
      simp only [astEqual] at h
      rename_i es es'
      have hlist : denoteList env es = denoteList env es' := by
        clear hi hi'
        induction es generalizing es' with
        | nil => cases es' <;> simp [astEqualList] at h ⊢
        | cons e es ih' =>
          cases es' with
          | nil => simp [astEqualList] at h
          | cons e' es' =>
            simp only [astEqualList, Bool.and_eq_true] at h
            rw [denoteList, denoteList, ih e (by simp) (hes' e' (by simp)) h.1,
              ih' (fun x hx => hes x (by simp [hx])) (fun x hx => ih x (by simp [hx]))
                (fun x hx => hes' x (by simp [hx])) h.2]
      rw [denote, denote, hlist]
    | _ => simp [astEqual] at h
  | index hi hreg ht hi' iht ihi =>
    cases hb with
    | index _ _ ht' hi'' =>
      simp only [astEqual, Bool.and_eq_true] at h
      rw [denote, denote, iht ht' h.1, ihi hi'' h.2]
    | _ => simp [astEqual] at h

/-! ### The tree evaluator -/

def withMemo (ctx : Context D) (memo : List (Ast D × Value D)) : Context D :=
  ctx.update fun f => { f with evalMemo := memo }

/-- The contexts an evaluation on `ctx` goes through: the memo table holds meanings of nodes of the fragment. -/
def Memoing (reg : Registry D) (indexed : Bool) (ctx : Context D) : Set (Context D) :=
  { c | ∃ memo, c = withMemo ctx memo ∧
    ∀ entry ∈ memo, Scalar reg indexed entry.1 ∧ denote ctx.env entry.1 = .ok entry.2 }

omit [Double D] in
theorem env_withMemo (ctx : Context D) (memo : List (Ast D × Value D)) : (withMemo ctx memo).env = ctx.env := by
  cases ctx with
  | nil => rfl
  | cons f parent =>
    simp only [withMemo, Context.update, Context.env, Env.mk.injEq]
    refine ⟨funext fun name => rfl, funext fun name => rfl⟩

variable {ctx : Context D} {ast : Ast D} {act : EvalM D (Value D)}

theorem memoGet_denote (hast : Scalar reg indexed ast) {c : Context D} (hc : c ∈ Memoing reg indexed ctx) :
    memoGet ast c = .ok (none, c) ∨ ∃ v, memoGet ast c = .ok (some v, c) ∧ denote ctx.env ast = .ok v := by
  obtain ⟨memo, rfl, hmemo⟩ := hc
  cases ctx with
  | nil => exact .inl rfl
  | cons f parent =>
    by_cases hdepth : f.evalMemoDepth = 0
    · exact .inl (by simp [memoGet, withMemo, Context.update, hdepth])
    · simp only [memoGet, withMemo, Context.update, hdepth, if_false]
      cases hfind : memo.find? (memoMatches ast) with
      | none => exact .inl rfl
      | some entry =>
        have hmatch := List.find?_some hfind
        simp only [memoMatches, Bool.and_eq_true] at hmatch
        obtain ⟨hscalar, hden⟩ := hmemo entry (List.mem_of_find?_eq_some hfind)
        refine .inr ⟨entry.2, rfl, ?_⟩
        rw [← denote_of_astEqual hscalar hast hmatch.2, hden]

theorem memoSet_mem (hast : Scalar reg indexed ast) (hv : denote ctx.env ast = .ok v) {c : Context D}
    (hc : c ∈ Memoing reg indexed ctx) : ∃ c' ∈ Memoing reg indexed ctx, memoSet ast v c = .ok ((), c') := by
  obtain ⟨memo, rfl, hmemo⟩ := hc
  have hsame : withMemo ctx memo ∈ Memoing reg indexed ctx := ⟨memo, rfl, hmemo⟩
  cases ctx with
  | nil => exact ⟨_, hsame, rfl⟩
  | cons f parent =>
    have hadd : withMemo (f :: parent) (memo ++ [(ast, v)]) ∈ Memoing reg indexed (f :: parent) := by
      refine ⟨_, rfl, fun entry hentry => ?_⟩
      rcases List.mem_append.mp hentry with hold | hnew
      · exact hmemo entry hold
      · obtain rfl := List.mem_singleton.mp hnew
        exact ⟨hast, hv⟩
    by_cases hdepth : f.evalMemoDepth = 0
    · exact ⟨_, hsame, by simp [memoSet, withMemo, Context.update, hdepth]⟩
    · cases v with
      | number | bool => exact ⟨_, hadd, by simp [memoSet, withMemo, Context.update, hdepth]⟩
      | _ => exact ⟨_, hsame, by simp [memoSet, withMemo, Context.update, hdepth]⟩

theorem computes_memoized (name : String) (hast : Scalar reg indexed ast)
    (h : Computes (Memoing reg indexed ctx) act (denote ctx.env ast)) :
    Computes (Memoing reg indexed ctx) (memoized reg name ast act) (denote ctx.env ast) := by
  unfold memoized
  split
  · intro c hc
    rcases memoGet_denote hast hc with hmiss | ⟨v, hhit, hv⟩
    · have hact := h c hc
      rw [bind_apply_ok hmiss]
      cases hden : denote ctx.env ast with
      | error e =>
        rw [hden] at hact
        exact bind_apply_error hact
      | ok v =>
        rw [hden] at hact
        obtain ⟨c', hc', hact⟩ := hact
        obtain ⟨c'', hc'', hset⟩ := memoSet_mem hast hden hc'
        refine ⟨c'', hc'', ?_⟩
        show (act >>= fun v => memoSet ast v >>= fun _ => Pure.pure v) c = _
        rw [bind_apply_ok hact, bind_apply_ok hset]
        rfl
    · rw [hv]
      exact ⟨c, hc, by rw [bind_apply_ok hhit]; rfl⟩
  · exact h

variable {I : Set (Context D)}

theorem computes_evalBinary {l r : EvalM D (Value D)}
    (hl : Computes I l x) (hr : Computes I r y) : Computes I (evalBinary op l r) (binaryMeaning op x y) := by
  refine hl.bind fun a _ => ?_
  cases op with
  | and =>
    refine (Computes.lift _).bind fun b _ => ?_
    cases b with
    | true => exact hr.bind fun c _ => (Computes.lift _).bind fun d _ => .pure _
    | false => exact .pure _
  | or =>
    refine (Computes.lift _).bind fun b _ => ?_
    cases b with
    | true => exact .pure _
    | false => exact hr.bind fun c _ => (Computes.lift _).bind fun d _ => .pure _
  | _ => exact hr.bind fun c _ => .lift _

omit [Double D] in
theorem computes_evalTernary {c t e : EvalM D (Value D)} {z : Except Error (Value D)}
    (hc : Computes I c x) (ht : Computes I t y) (he : Computes I e z) :
    Computes I (evalTernary message c t e) (ternaryMeaning message x y z) := by
  refine hc.bind fun a _ => (Computes.lift _).bind fun b _ => ?_
  cases b with
  | true => exact ht
  | false => exact he

theorem computes_evalAll {es : List (Ast D)}
    (h : ∀ e ∈ es, Computes I (evalNode reg deeper e) (denote env e)) :
    Computes I (evalAll (evalActs reg deeper es)) ((denoteList env es).mapM id) := by
  induction es with
  | nil => exact .pure _
  | cons e es ih =>
    rw [denoteList, List.mapM_cons]
    exact (h e (by simp)).bind fun v _ => (ih fun e' he' => h e' (by simp [he'])).bind fun vs _ => .pure _

theorem computes_arrayIndex {values : List (Value D)} {index : EvalM D (Value D)}
    (h : Computes I index y) : Computes I (arrayIndex values index) (indexMeaning (.ok (.array values)) y) := by
  refine h.bind fun v _ => ?_
  cases Ir.constantIndex (some v) with
  | none => exact .throw _
  | some i =>
    dsimp only
    cases values[i]? with
    | none => exact .throw _
    | some v => exact .pure v

theorem computes_evalIndex {t i : Ast D} {target index : EvalM D (Value D)}
    (hreg : reg.PlainIndex) (ht : Computes I target x) (hi : Computes I index y)
    (hname : ∀ name, t = .identifier name → ∀ c ∈ I, ∀ v, c.getTyped name = some v → x = .ok v) :
    Computes I (evalIndex reg t i target index) (indexMeaning x y) := by
  obtain ⟨hresolver, -, hselect⟩ := hreg
  refine Computes.read fun c hc => ?_
  dsimp only
  split
  · rename_i values harray
    cases t with
    | identifier name =>
      rw [hname name rfl c hc _ harray]
      exact computes_arrayIndex hi
    | _ => cases harray
  · rw [if_pos (by simp [hresolver]), hselect, lift_ok_bind]
    dsimp only
    rw [hresolver]
    refine ht.bind fun v _ => ?_
    cases v with
    | array values => exact computes_arrayIndex hi
    | _ => exact .throw _

theorem computes_evalCall_if {c t e : Ast D} {argNames : List (Option String)}
    (hreg : reg.BuiltinIf) (hc : Computes I (evalNode reg deeper c) (denote env c))
    (ht : Computes I (evalNode reg deeper t) (denote env t))
    (he : Computes I (evalNode reg deeper e) (denote env e)) :
    Computes I (evalCall reg deeper "if" [c, t, e] argNames (evalActs reg deeper [c, t, e]))
      (denote env (.call "if" [c, t, e] argNames)) := by
  refine Computes.read fun ctx hctx => ?_
  simp only [denote, denoteList, ifMeaning, evalActs, beq_self_eq_true, if_true]
  rw [hreg]
  by_cases hnamed : Ast.callUsesNamedArgs 3 argNames = true
  · simp only [hnamed, if_true]
    exact fun s hs => by
      simp [ternaryEntry, callBindArgs, hnamed, FuncEntry.entryParamNames, maxCallArgs]
      rfl
  · have hbind : callBindArgs (ternaryEntry "if" (cxprIf (D := D)))
        ([c, t, e].zip [evalNode reg deeper c, evalNode reg deeper t, evalNode reg deeper e]) argNames =
        .ok ([c, t, e].zip [evalNode reg deeper c, evalNode reg deeper t, evalNode reg deeper e]) := by
      simp [callBindArgs, hnamed, maxCallArgs]
    simp only [hbind, lift_ok_bind, hnamed]
    exact computes_evalTernary hc ht he

theorem evalNode_computes
    (hast : Scalar reg indexed ast) :
    Computes (Memoing reg indexed ctx) (evalNode reg deeper ast) (denote ctx.env ast) := by
  have henv : ∀ c ∈ Memoing reg indexed ctx, c.env = ctx.env := by
    rintro c ⟨memo, rfl, -⟩
    exact env_withMemo ctx memo
  induction hast with
  | number | bool => exact .pure _
  | identifier name =>
    refine Computes.read fun c hc => ?_
    have hvar : c.getTyped name = ctx.env.var name := congrFun (congrArg Env.var (henv c hc)) name
    rw [denote, hvar]
    cases ctx.env.var name with
    | some v => exact .pure v
    | none => exact .throw _
  | param name =>
    refine Computes.read fun c hc => ?_
    have hparam : c.getParamTyped name = ctx.env.param name := congrFun (congrArg Env.param (henv c hc)) name
    rw [denote, hparam]
    cases ctx.env.param name with
    | some v => exact .pure v
    | none => exact .throw _
  | unary op ha iha =>
    rw [evalNode, denote]
    exact iha.bind fun v _ => .lift _
  | binary op hl hr ihl ihr =>
    rw [evalNode, denote]
    exact computes_evalBinary ihl ihr
  | ternary hc ht he ihc iht ihe =>
    rw [evalNode, denote]
    exact computes_evalTernary ihc iht ihe
  | ifCall hif hc ht he argNames ihc iht ihe =>
    rw [evalNode]
    exact computes_memoized "if" (.ifCall hif hc ht he argNames) (computes_evalCall_if hif ihc iht ihe)
  | array hi hes ih =>
    rw [evalNode, denote]
    exact (computes_evalAll ih).bind fun vs _ => .pure _
  | index hi hreg ht hi' iht ihi =>
    rw [evalNode, denote]
    refine computes_evalIndex hreg iht ihi ?_
    rintro name rfl c hc v hv
    have hvar : ctx.env.var name = some v := (congrFun (congrArg Env.var (henv c hc)) name).symm.trans hv
    rw [denote, hvar]

omit [Double D] in
def Idle (ctx : Context D) : Prop := ∀ f ∈ ctx.head?, f.evalMemoDepth = 0

theorem memoEnter_mem_memoing (hidle : Idle ctx) : memoEnter ctx ∈ Memoing reg indexed (memoEnter ctx) := by
  refine ⟨[], ?_, by simp⟩
  cases ctx with
  | nil => rfl
  | cons f parent =>
    have hdepth : f.evalMemoDepth = 0 := hidle f (by simp)
    simp [memoEnter, withMemo, Context.update, hdepth]

theorem evalAstValue_spec (hast : Scalar reg indexed ast) (hidle : Idle ctx) (depth : Nat) :
    match denote ctx.env ast with
    | .ok v => evalAstValue reg (depth + 1) ast ctx = .ok (v, withMemo ctx [])
    | .error e => evalAstValue reg (depth + 1) ast ctx = .error e := by
  have henv : (memoEnter ctx).env = ctx.env := by
    cases ctx with
    | nil => rfl
    | cons f parent => rfl
  have hcomputes : Computes (Memoing reg indexed (memoEnter ctx)) (evalNode reg (evalDepth reg depth) ast)
      (denote (memoEnter ctx).env ast) := evalNode_computes hast
  have hrun := hcomputes _ (memoEnter_mem_memoing hidle)
  rw [henv] at hrun
  cases hden : denote ctx.env ast with
  | error e =>
    rw [hden] at hrun
    show (evalNode reg (evalDepth reg depth) ast (memoEnter ctx) >>= _) = _
    rw [hrun]
    rfl
  | ok v =>
    rw [hden] at hrun
    obtain ⟨c, ⟨memo, rfl, -⟩, hrun⟩ := hrun
    show (evalNode reg (evalDepth reg depth) ast (memoEnter ctx) >>= _) = _
    rw [hrun]
    cases ctx with
    | nil => rfl
    | cons f parent =>
      have hdepth : f.evalMemoDepth = 0 := hidle f (by simp)
      simp [bind, Except.bind, pure, Except.pure, memoEnter, memoLeave, withMemo, Context.update, hdepth]

theorem evalAst_eq_ok {depth : Nat} {ctx' : Context D} (hast : Scalar reg indexed ast) (hidle : Idle ctx)
    (h : evalAst reg depth ast ctx = .ok (v, ctx')) :
    (∃ t, typecheck ast reg = .ok t) ∧ denote ctx.env ast = .ok v ∧ ctx' = withMemo ctx [] := by
  obtain ⟨t, ht, hvalue⟩ := bind_eq_ok.mp h
  refine ⟨⟨t, ht⟩, ?_⟩
  cases depth with
  | zero => cases hvalue
  | succ depth =>
    have hspec := evalAstValue_spec hast hidle depth
    cases hden : denote ctx.env ast with
    | error e =>
      rw [hden] at hspec
      rw [hspec] at hvalue
      cases hvalue
    | ok w =>
      rw [hden] at hspec
      rw [hspec] at hvalue
      cases hvalue
      exact ⟨rfl, rfl⟩

end
end Eval
end Cxpr
