import Cxpr.Eval.Tree
import Cxpr.Lib.Paired

/-! Expressions of literals, names, parameters, operators and host functions read nothing of a context but those names
    and parameters. On contexts that agree on them, and with registries that have the same functions, they are
    evaluated alike, whatever the index callbacks of the registries are. -/

namespace Cxpr
open Stateful
variable {D : Type}

namespace Ast

mutual

/-- The names `cxpr_collect_references` comes across, one for each mention. A field access on a base expression is not
    looked into. -/
def mentions : Ast D → List String
  | .identifier name => [name]
  | .fieldAccess object field => [fullKey [object, field]]
  | .chainAccess path => [fullKey path]
  | .array es => mentionsList es
  | .record _ values => mentionsList values
  | .binary _ l r => mentions l ++ mentions r
  | .unary _ a => mentions a
  | .call _ args _ => mentionsList args
  | .producerAccess _ args _ _ => mentionsList args
  | .index t i => mentions t ++ mentions i
  | .ternary c t e => mentions c ++ mentions t ++ mentions e
  | .number _ | .int64 _ | .bool _ | .string _ | .param _ | .fieldOf _ _ => []

def mentionsList : List (Ast D) → List String
  | [] => []
  | a :: as => mentions a ++ mentionsList as

end

/-- `cxpr_add_unique_name`. -/
def addUniqueName (names : List String) (name : String) : List String :=
  if name ∈ names then names else names ++ [name]

/-- `cxpr_expr_ast_references` into an array that has room: every name once, in the order of first mention. -/
def references (ast : Ast D) : List String := (mentions ast).foldl addUniqueName []

theorem foldl_addUniqueName_mem {names : List String} {acc : List String} {name : String} :
    name ∈ names.foldl addUniqueName acc ↔ name ∈ acc ∨ name ∈ names := by
  induction names generalizing acc with
  | nil => simp
  | cons first rest ih =>
    rw [List.foldl_cons, ih, addUniqueName]
    split
    · rename_i hmem
      constructor
      · rintro (hold | hrest)
        · exact .inl hold
        · exact .inr (List.mem_cons_of_mem _ hrest)
      · rintro (hold | hnew)
        · exact .inl hold
        · rcases List.mem_cons.mp hnew with rfl | hrest
          · exact .inl hmem
          · exact .inr hrest
    · simp [or_assoc]

theorem mem_references {ast : Ast D} {name : String} : name ∈ references ast ↔ name ∈ mentions ast := by
  simp [references, foldl_addUniqueName_mem]

theorem foldl_addUniqueName_of_nodup {names acc : List String} (h : (acc ++ names).Nodup) :
    names.foldl addUniqueName acc = acc ++ names := by
  induction names generalizing acc with
  | nil => simp
  | cons first rest ih =>
    have hnew : first ∉ acc := by
      intro hmem
      have hdisjoint := List.disjoint_of_nodup_append h
      exact hdisjoint hmem (by simp)
    rw [List.foldl_cons, addUniqueName, if_neg hnew, ih (by simpa using h)]
    simp

theorem references_of_nodup {ast : Ast D} (h : (mentions ast).Nodup) : references ast = mentions ast := by
  have hnil : ([] ++ mentions ast).Nodup := by simpa using h
  exact foldl_addUniqueName_of_nodup hnil

end Ast

structure FuncEntry.Callback (entry : FuncEntry D) : Prop where
  astFunc : entry.astFunc = none
  astFuncHandler : entry.astFuncHandler = none
  structProducer : entry.structProducer = none
  modelProducer : entry.modelProducer = none
  structFields : entry.structFields = none
  definedBody : entry.definedBody = none
  definedReturnFields : entry.definedReturnFields = []

/-- Expressions over the names of `S`, without a lookback: an index access is one into a target that mentions no name. -/
inductive Plain (reg : Registry D) (S : Set String) : Ast D → Prop
  | number (v : D) : Plain reg S (.number v)
  | int64 (v : Int64) : Plain reg S (.int64 v)
  | bool (v : Bool) : Plain reg S (.bool v)
  | string (v : String) : Plain reg S (.string v)
  | array {es : List (Ast D)} (hes : ∀ e ∈ es, Plain reg S e) : Plain reg S (.array es)
  | identifier {name : String} (h : name ∈ S) : Plain reg S (.identifier name)
  | param (name : String) : Plain reg S (.param name)
  | unary (op : UnaryOp) {a : Ast D} (ha : Plain reg S a) : Plain reg S (.unary op a)
  | binary (op : BinaryOp) {l r : Ast D} (hl : Plain reg S l) (hr : Plain reg S r) : Plain reg S (.binary op l r)
  | ternary {c t e : Ast D} (hc : Plain reg S c) (ht : Plain reg S t) (he : Plain reg S e) :
      Plain reg S (.ternary c t e)
  | call {name : String} (hname : ∀ entry, reg.find name = some entry → entry.Callback) {args : List (Ast D)}
      (hargs : ∀ a ∈ args, Plain reg S a) (argNames : List (Option String)) : Plain reg S (.call name args argNames)
  | index {t i : Ast D} (hnone : t.mentions = []) (ht : Plain reg S t) (hi : Plain reg S i) : Plain reg S (.index t i)

structure Registry.SameFunctions (reg reg' : Registry D) : Prop where
  find : ∀ name, reg'.find name = reg.find name
  unserved : ∀ t : Ast D, t.mentions = [] → reg.selectIndexCapability t = .ok none
  unserved' : ∀ t : Ast D, t.mentions = [] → reg'.selectIndexCapability t = .ok none
  lookbackResolver : reg.lookbackResolver = none
  lookbackResolver' : reg'.lookbackResolver = none

variable [Double D] {reg reg' : Registry D} {S : Set String} {ast : Ast D}

namespace Typecheck

theorem inferList_eq_of_forall {es : List (Ast D)} (h : ∀ e ∈ es, infer reg' e = infer reg e) :
    inferList reg' es = inferList reg es := by
  induction es with
  | nil => rfl
  | cons e es ih =>
    rw [inferList, inferList, h e (by simp), ih fun e' he' => h e' (by simp [he'])]

theorem infer_plain (hreg : reg.SameFunctions reg') (h : Plain reg S ast) : infer reg' ast = infer reg ast := by
  induction h with
  | number | int64 | bool | string | identifier | param => rfl
  | array hes ih => rw [infer, infer, inferList_eq_of_forall ih]
  | unary op ha ih => rw [infer, infer, ih]
  | binary op hl hr ihl ihr => rw [infer, infer, ihl, ihr]
  | ternary hc ht he ihc iht ihe => rw [infer, infer, ihc, iht, ihe]
  | call hname hargs argNames ih =>
    rw [infer, infer, inferList_eq_of_forall ih]
    unfold inferCall
    rw [hreg.find]
  | index hnone ht hi iht ihi =>
    rw [infer, infer, iht, ihi]
    unfold inferIndex
    rw [hreg.unserved _ hnone, hreg.unserved' _ hnone]

end Typecheck

theorem typecheck_plain (hreg : reg.SameFunctions reg') (h : Plain reg S ast) :
    typecheck ast reg' = typecheck ast reg := by
  unfold typecheck
  rw [Typecheck.infer_plain hreg h]

/-! ### The evaluator -/

namespace Eval

/-- Contexts that agree on the names of `S` and on the parameters, in the same state of the memo. -/
structure Agree (S : Set String) (c c' : Context D) : Prop where
  var : ∀ name ∈ S, c.getTyped name = c'.getTyped name
  param : ∀ name, c.getParamTyped name = c'.getParamTyped name
  memo : c.head?.map (fun f => (f.evalMemoDepth, f.evalMemo)) = c'.head?.map fun f => (f.evalMemoDepth, f.evalMemo)

omit [Double D] in
theorem heads_of_memo {c c' : Context D}
    (hmemo : c.head?.map (fun f => (f.evalMemoDepth, f.evalMemo)) = c'.head?.map fun f => (f.evalMemoDepth, f.evalMemo)) :
    (c = [] ∧ c' = []) ∨ ∃ f parent f' parent', c = f :: parent ∧ c' = f' :: parent' ∧
      f.evalMemoDepth = f'.evalMemoDepth ∧ f.evalMemo = f'.evalMemo := by
  cases c with
  | nil =>
    cases c' with
    | nil => exact .inl ⟨rfl, rfl⟩
    | cons f' parent' => cases hmemo
  | cons f parent =>
    cases c' with
    | nil => cases hmemo
    | cons f' parent' =>
      simp only [List.head?_cons, Option.map_some, Option.some.injEq, Prod.mk.injEq] at hmemo
      exact .inr ⟨f, parent, f', parent', rfl, rfl, hmemo.1, hmemo.2⟩

theorem paired_memoGet (ast : Ast D) : Paired (Agree S) (memoGet ast) (memoGet ast) := by
  intro c c' h
  rcases heads_of_memo h.memo with ⟨rfl, rfl⟩ | ⟨f, parent, f', parent', rfl, rfl, hdepth, hmemo⟩
  · exact .ok h
  · simp only [memoGet, hdepth, hmemo]
    split <;> exact .ok h

omit [Double D] in
theorem paired_memoSet (ast : Ast D) (v : Value D) : Paired (Agree S) (memoSet ast v) (memoSet ast v) := by
  intro c c' h
  rcases heads_of_memo h.memo with ⟨rfl, rfl⟩ | ⟨f, parent, f', parent', rfl, rfl, hdepth, hmemo⟩
  · exact .ok h
  · simp only [memoSet, hdepth, hmemo]
    split
    · exact .ok h
    · cases v with
      | number | bool => exact .ok ⟨h.var, h.param, by simp⟩
      | _ => exact .ok h

variable {R : Context D → Context D → Prop}

theorem paired_memoized {act act' : EvalM D (Value D)} (hfind : ∀ name, reg'.find name = reg.find name) (name : String)
    {ast : Ast D} (hget : Paired R (memoGet ast) (memoGet ast)) (hset : ∀ v, Paired R (memoSet ast v) (memoSet ast v))
    (h : Paired R act act') : Paired R (memoized reg name ast act) (memoized reg' name ast act') := by
  unfold memoized
  rw [hfind]
  split
  · refine hget.bind fun found => ?_
    cases found with
    | some v => exact .pure v
    | none => exact h.bind fun v => (hset v).bind fun _ => .pure v
  · exact h

theorem paired_evalBinary {op : BinaryOp} {l l' r r' : EvalM D (Value D)} (hl : Paired R l l')
    (hr : Paired R r r') : Paired R (evalBinary op l r) (evalBinary op l' r') := by
  refine hl.bind fun a => ?_
  cases op with
  | and =>
    refine (Paired.lift _).bind fun b => ?_
    cases b with
    | true => exact hr.bind fun c => (Paired.lift _).bind fun d => .pure _
    | false => exact .pure _
  | or =>
    refine (Paired.lift _).bind fun b => ?_
    cases b with
    | true => exact .pure _
    | false => exact hr.bind fun c => (Paired.lift _).bind fun d => .pure _
  | _ => exact hr.bind fun c => .lift _

omit [Double D] in
theorem paired_evalTernary {message : String} {c c' t t' e e' : EvalM D (Value D)} (hc : Paired R c c')
    (ht : Paired R t t') (he : Paired R e e') :
    Paired R (evalTernary message c t e) (evalTernary message c' t' e') := by
  refine hc.bind fun a => (Paired.lift _).bind fun b => ?_
  cases b with
  | true => exact ht
  | false => exact he

variable {index : EvalM D (Value D)}

theorem paired_arrayIndex {values : List (Value D)} {index' : EvalM D (Value D)}
    (h : Paired R index index') : Paired R (arrayIndex values index) (arrayIndex values index') := by
  refine h.bind fun v => ?_
  cases Ir.constantIndex (some v) with
  | none => exact .throw _
  | some i =>
    dsimp only
    cases values[i]? with
    | none => exact .throw _
    | some v => exact .pure v

theorem mentions_flattenLookback : ∀ (t : Ast D) (offset : Nat), t.mentions = [] →
    (flattenLookback offset t).2.1.mentions = []
  | .index target i, offset, h => by
    cases hsum : (Ir.lookbackLiteralOffset i).bind (Ir.lookbackAddUnsigned offset) with
    | none =>
      simp only [flattenLookback, hsum]
      exact h
    | some summed =>
      simp only [flattenLookback, hsum]
      rw [Ast.mentions, List.append_eq_nil_iff] at h
      exact mentions_flattenLookback target summed h.1
  | .number _, _, h | .int64 _, _, h | .bool _, _, h | .string _, _, h | .array _, _, h | .record _ _, _, h
  | .identifier _, _, h | .param _, _, h | .fieldAccess _ _, _, h | .fieldOf _ _, _, h | .chainAccess _, _, h
  | .producerAccess _ _ _ _, _, h | .binary _ _ _, _, h | .unary _ _, _, h | .call _ _ _, _, h
  | .ternary _ _ _, _, h => h

def lookbackParts (t i : Ast D) : Nat × Ast D × Bool :=
  match Ir.lookbackLiteralOffset i with
  | some offset => flattenLookback offset t
  | none => (0, t, false)

def capabilityIndex (t i : Ast D) (index : EvalM D (Value D)) : EvalM D (Value D) :=
  if (Ir.lookbackLiteralOffset i).isSome && isIndex t &&
      (match t with
        | .index _ i' => ((Ir.lookbackLiteralOffset i').bind
            (Ir.lookbackAddUnsigned ((Ir.lookbackLiteralOffset i).getD 0))).isSome
        | _ => false) then
    return .number (Double.ofNat (lookbackParts t i).1)
  else index

def elementOf (index : EvalM D (Value D)) : Value D → EvalM D (Value D)
  | .array values => arrayIndex values index
  | _ => evalError .typeMismatch "Index target is not indexable"

def servedIndex (t i : Ast D) (target index : EvalM D (Value D)) : Option (IndexCapability D) → EvalM D (Value D)
  | some capability => resolveCapability capability (lookbackParts t i).2.1 (capabilityIndex t i index)
  | none => target >>= elementOf index

def storedElement (index : EvalM D (Value D)) (otherwise : EvalM D (Value D)) : Option (Value D) → EvalM D (Value D)
  | some (.array values) => arrayIndex values index
  | _ => otherwise

theorem storedElement_of_ne (index : EvalM D (Value D)) {otherwise : EvalM D (Value D)} {stored : Option (Value D)}
    (h : ∀ values, stored ≠ some (.array values)) : storedElement index otherwise stored = otherwise := by
  unfold storedElement
  split
  · exact absurd rfl (h _)
  · rfl

theorem evalIndex_apply {t i : Ast D} {target : EvalM D (Value D)} {c : Context D}
    (hresolver : reg.lookbackResolver = none)
    (harray : ∀ name values, t = .identifier name → c.getTyped name ≠ some (.array values)) :
    evalIndex reg t i target index c = ((reg.selectIndexCapability (lookbackParts t i).2.1 : Except Error _) >>=
      fun found => servedIndex t i target index found c) := by
  unfold evalIndex
  refine (Stateful.bind_apply_ok rfl).trans ?_
  rw [hresolver]
  refine (congrFun (storedElement_of_ne index ?_) c).trans ?_
  · intro values hvalues
    split at hvalues
    · exact harray _ values rfl hvalues
    · cases hvalues
  · dsimp only
    rw [if_pos (by simp)]
    show ((liftM (reg.selectIndexCapability (lookbackParts t i).2.1) : EvalM D _) >>= _) c = _
    cases reg.selectIndexCapability (lookbackParts t i).2.1 with
    | error e => rfl
    | ok capability =>
      cases capability with
      | none => rfl
      | some capability => rfl

theorem paired_evalIndex {t i : Ast D} {target target' index' : EvalM D (Value D)}
    (hreg : reg.SameFunctions reg') (hnone : t.mentions = []) (ht : Paired (Agree S) target target')
    (hi : Paired (Agree S) index index') :
    Paired (Agree S) (evalIndex reg t i target index) (evalIndex reg' t i target' index') := by
  have hflat : (lookbackParts t i).2.1.mentions = [] := by
    unfold lookbackParts
    split
    · exact mentions_flattenLookback t _ hnone
    · exact hnone
  have hname : ∀ name, t ≠ .identifier name := by
    rintro name rfl
    cases hnone
  intro c c' hc
  rw [evalIndex_apply hreg.lookbackResolver fun name _ heq => absurd heq (hname name),
    evalIndex_apply hreg.lookbackResolver' fun name _ heq => absurd heq (hname name), hreg.unserved _ hflat,
    hreg.unserved' _ hflat]
  have helement : Paired (Agree S) (target >>= elementOf index) (target' >>= elementOf index') := by
    refine ht.bind fun v => ?_
    cases v with
    | array values => exact paired_arrayIndex hi
    | _ => exact .throw _
  exact helement c c' hc

theorem evalActs_eq_map (deeper : Ast D → EvalM D (Value D)) (args : List (Ast D)) :
    evalActs reg deeper args = args.map (evalNode reg deeper) := by
  induction args with
  | nil => rfl
  | cons a args ih => rw [evalActs, ih, List.map_cons]

theorem callBindArgs_zip_evalActs {deeper : Ast D → EvalM D (Value D)} (entry : FuncEntry D) (args : List (Ast D))
    (argNames : List (Option String)) :
    callBindArgs entry (args.zip (evalActs reg deeper args)) argNames =
      (callBindArgs entry args argNames).map (List.map fun a => (a, evalNode reg deeper a)) := by
  have hzip : args.zip (evalActs reg deeper args) = args.map fun a => (a, evalNode reg deeper a) := by
    rw [evalActs_eq_map]
    induction args with
    | nil => rfl
    | cons a args ih => rw [List.map_cons, List.zip_cons_cons, ih, List.map_cons]
  rw [hzip, callBindArgs_map]

omit [Double D] in
theorem paired_scalarArg {act act' : EvalM D (Value D)} (h : Paired R act act') :
    Paired R (scalarArg act) (scalarArg act') :=
  h.bind fun _ => .lift _

section
variable {deeper deeper' : Ast D → EvalM D (Value D)} {args : List (Ast D)}

theorem paired_evalAll (h : ∀ a ∈ args, Paired R (evalNode reg deeper a) (evalNode reg' deeper' a)) :
    Paired R (evalAll (args.map (evalNode reg deeper))) (evalAll (args.map (evalNode reg' deeper'))) := by
  induction args with
  | nil => exact .pure _
  | cons a args ih =>
    exact (h a (by simp)).bind fun v => (ih fun a' ha' => h a' (by simp [ha'])).bind fun vs => .pure _

def callNative (reg : Registry D) (entry : FuncEntry D) (name : String) (argc : Nat) (acts : List (EvalM D (Value D))) :
    EvalM D (Value D) :=
  match entry.native, acts with
  | .nullary v, [] => return .number v
  | .unary f, [a] => return .number (f (← scalarArg a))
  | .binary f, [a, b] => do
    let x ← scalarArg a
    return .number (f x (← scalarArg b))
  | .ternary f, [a, b, c] => do
    let x ← scalarArg a
    let y ← scalarArg b
    return .number (f x y (← scalarArg c))
  | _, _ =>
    if maxCallArgs < argc then evalError .wrongArity "Too many function arguments"
    else do registryCallTyped reg name (← evalAll acts)

def callHost (reg : Registry D) (entry : FuncEntry D) (name : String) (argc : Nat) (acts : List (EvalM D (Value D))) :
    EvalM D (Value D) :=
  match name == "if", acts with
  | true, [c, t, e] => evalTernary "if() condition must be bool" c t e
  | _, _ =>
    if argc < entry.minArgs || entry.maxArgs < argc then evalError .wrongArity "Wrong number of arguments"
    else callNative reg entry name argc acts

theorem evalCall_callback {entry : FuncEntry D} {name : String} (hfind : reg.find name = some entry)
    (hentry : entry.Callback) (argNames : List (Option String)) :
    evalCall reg deeper name args argNames (evalActs reg deeper args) =
      ((liftM (callBindArgs entry args argNames) : EvalM D _) >>= fun ordered =>
        callHost reg entry name args.length (ordered.map (evalNode reg deeper))) := by
  funext c
  unfold evalCall
  refine (Stateful.bind_apply_ok rfl).trans ?_
  rw [hfind]
  simp only [hentry.astFunc, hentry.astFuncHandler, hentry.structProducer, hentry.modelProducer, hentry.structFields,
    hentry.definedBody, hentry.definedReturnFields]
  rw [callBindArgs_zip_evalActs]
  cases callBindArgs entry args argNames with
  | error e => rfl
  | ok ordered =>
    have hacts : (ordered.map fun a => (a, evalNode reg deeper a)).map Prod.snd = ordered.map (evalNode reg deeper) := by
      rw [List.map_map]
      rfl
    simp only [Except.map, lift_ok_bind, hacts]
    rfl

theorem paired_callNative (hfind : ∀ name, reg'.find name = reg.find name) (entry : FuncEntry D) (name : String) (argc : Nat)
    (h : ∀ a ∈ args, Paired R (evalNode reg deeper a) (evalNode reg' deeper' a)) :
    Paired R (callNative reg entry name argc (args.map (evalNode reg deeper)))
      (callNative reg' entry name argc (args.map (evalNode reg' deeper'))) := by
  have hcallback : Paired R
      (if maxCallArgs < argc then evalError .wrongArity "Too many function arguments"
        else do registryCallTyped reg name (← evalAll (args.map (evalNode reg deeper))))
      (if maxCallArgs < argc then evalError .wrongArity "Too many function arguments"
        else do registryCallTyped reg' name (← evalAll (args.map (evalNode reg' deeper')))) := by
    have htyped : registryCallTyped reg' name = registryCallTyped reg name := by
      funext values
      unfold registryCallTyped
      rw [hfind]
    rw [htyped]
    split
    · exact .throw _
    · exact (paired_evalAll h).bind fun values => .lift _
  have hscalar : ∀ a ∈ args, Paired R (scalarArg (evalNode reg deeper a)) (scalarArg (evalNode reg' deeper' a)) :=
    fun a ha => paired_scalarArg (h a ha)
  unfold callNative
  cases entry.native with
  | none => exact hcallback
  | nullary v =>
    rcases args with _ | ⟨a, rest⟩
    · exact .pure _
    · exact hcallback
  | unary f =>
    rcases args with _ | ⟨a, _ | ⟨b, rest⟩⟩
    · exact hcallback
    · exact (hscalar a (by simp)).bind fun x => .pure _
    · exact hcallback
  | binary f =>
    rcases args with _ | ⟨a, _ | ⟨b, _ | ⟨c, rest⟩⟩⟩
    · exact hcallback
    · exact hcallback
    · exact (hscalar a (by simp)).bind fun x => (hscalar b (by simp)).bind fun y => .pure _
    · exact hcallback
  | ternary f =>
    rcases args with _ | ⟨a, _ | ⟨b, _ | ⟨c, _ | ⟨d, rest⟩⟩⟩⟩
    · exact hcallback
    · exact hcallback
    · exact hcallback
    · exact (hscalar a (by simp)).bind fun x => (hscalar b (by simp)).bind fun y =>
        (hscalar c (by simp)).bind fun z => .pure _
    · exact hcallback

theorem paired_callHost (hfind : ∀ name, reg'.find name = reg.find name) (entry : FuncEntry D) (name : String) (argc : Nat)
    (h : ∀ a ∈ args, Paired R (evalNode reg deeper a) (evalNode reg' deeper' a)) :
    Paired R (callHost reg entry name argc (args.map (evalNode reg deeper)))
      (callHost reg' entry name argc (args.map (evalNode reg' deeper'))) := by
  have hcall : Paired R
      (if argc < entry.minArgs || entry.maxArgs < argc then evalError .wrongArity "Wrong number of arguments"
        else callNative reg entry name argc (args.map (evalNode reg deeper)))
      (if argc < entry.minArgs || entry.maxArgs < argc then evalError .wrongArity "Wrong number of arguments"
        else callNative reg' entry name argc (args.map (evalNode reg' deeper'))) := by
    split
    · exact .throw _
    · exact paired_callNative hfind entry name argc h
  unfold callHost
  cases name == "if" with
  | false => exact hcall
  | true =>
    rcases args with _ | ⟨c, _ | ⟨t, _ | ⟨e, _ | ⟨d, rest⟩⟩⟩⟩
    · exact hcall
    · exact hcall
    · exact hcall
    · exact paired_evalTernary (h c (by simp)) (h t (by simp)) (h e (by simp))
    · exact hcall

theorem paired_evalCall (hreg : reg.SameFunctions reg') {name : String}
    (hname : ∀ entry, reg.find name = some entry → entry.Callback) (argNames : List (Option String))
    (h : ∀ a ∈ args, Paired (Agree S) (evalNode reg deeper a) (evalNode reg' deeper' a)) :
    Paired (Agree S) (evalCall reg deeper name args argNames (evalActs reg deeper args))
      (evalCall reg' deeper' name args argNames (evalActs reg' deeper' args)) := by
  cases hfind : reg.find name with
  | none =>
    unfold evalCall
    rw [hreg.find, hfind]
    exact Paired.read fun c c' hc => .throw _
  | some entry =>
    rw [evalCall_callback hfind (hname entry hfind), evalCall_callback ((hreg.find name).trans hfind) (hname entry hfind)]
    cases hbind : callBindArgs entry args argNames with
    | error e => exact fun c c' hc => .error e
    | ok ordered =>
      rw [lift_ok_bind, lift_ok_bind]
      exact paired_callHost hreg.find entry name args.length fun a ha => h a ((callBindArgs_mem hbind).2 a ha)

end

theorem paired_evalNode (hreg : reg.SameFunctions reg') (deeper deeper' : Ast D → EvalM D (Value D))
    (h : Plain reg S ast) : Paired (Agree S) (evalNode reg deeper ast) (evalNode reg' deeper' ast) := by
  induction h with
  | number | int64 | bool | string => exact .pure _
  | array hes ih =>
    rw [evalNode, evalNode, evalActs_eq_map, evalActs_eq_map]
    exact (paired_evalAll ih).bind fun vs => .pure _
  | identifier hname =>
    refine Paired.read fun c c' hc => ?_
    rw [hc.var _ hname]
    split
    · exact .pure _
    · exact .throw _
  | param name =>
    refine Paired.read fun c c' hc => ?_
    rw [hc.param]
    split
    · exact .pure _
    · exact .throw _
  | unary op ha ih =>
    rw [evalNode, evalNode]
    exact ih.bind fun v => .lift _
  | binary op hl hr ihl ihr =>
    rw [evalNode, evalNode]
    exact paired_evalBinary ihl ihr
  | ternary hc ht he ihc iht ihe =>
    rw [evalNode, evalNode]
    exact paired_evalTernary ihc iht ihe
  | call hname hargs argNames ih =>
    rw [evalNode, evalNode]
    exact paired_memoized hreg.find _ (paired_memoGet _) (paired_memoSet _) (paired_evalCall hreg hname argNames ih)
  | index hnone ht hi iht ihi =>
    rw [evalNode, evalNode]
    exact paired_evalIndex hreg hnone iht ihi

theorem evalAst_agree (hreg : reg.SameFunctions reg') (h : Plain reg S ast) {f f' : Frame D} {parent parent' : Context D}
    (hvar : ∀ name ∈ S, Context.getTyped (f :: parent) name = Context.getTyped (f' :: parent') name)
    (hparam : ∀ name, Context.getParamTyped (f :: parent) name = Context.getParamTyped (f' :: parent') name)
    (hidle : f.evalMemoDepth = 0) (hidle' : f'.evalMemoDepth = 0) (depth depth' : Nat) :
    (evalAst reg (depth + 1) ast (f :: parent)).map Prod.fst =
      (evalAst reg' (depth' + 1) ast (f' :: parent')).map Prod.fst := by
  unfold evalAst
  rw [typecheck_plain hreg h]
  cases typecheck ast reg with
  | error e => rfl
  | ok t =>
    have hentered : Agree S (memoEnter (f :: parent)) (memoEnter (f' :: parent')) := by
      refine ⟨hvar, hparam, ?_⟩
      simp [memoEnter, Context.update, hidle, hidle']
    have hnode := (paired_evalNode hreg (evalDepth reg depth) (evalDepth reg' depth') h _ _ hentered).results
    show ((evalNode reg (evalDepth reg depth) ast (memoEnter (f :: parent))) >>= _).map _ =
      ((evalNode reg' (evalDepth reg' depth') ast (memoEnter (f' :: parent'))) >>= _).map _
    cases hleft : evalNode reg (evalDepth reg depth) ast (memoEnter (f :: parent)) with
    | error e =>
      rw [hleft] at hnode
      cases hright : evalNode reg' (evalDepth reg' depth') ast (memoEnter (f' :: parent')) with
      | error e' =>
        rw [hright] at hnode
        cases hnode
        rfl
      | ok q =>
        rw [hright] at hnode
        cases hnode
    | ok p =>
      rw [hleft] at hnode
      cases hright : evalNode reg' (evalDepth reg' depth') ast (memoEnter (f' :: parent')) with
      | error e' =>
        rw [hright] at hnode
        cases hnode
      | ok q =>
        rw [hright] at hnode
        exact hnode

end Eval
end Cxpr
