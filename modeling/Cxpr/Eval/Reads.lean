import Cxpr.Eval.Agree
import Cxpr.Subexprs

/-! Evaluation reads nothing of a context but the names and parameters that occur in the expression: on contexts in which
    these are read alike it runs alike, for all kinds of expressions and whatever is kept and bound on the way. -/

namespace Cxpr.Eval
open Ast Stateful
variable {D : Type}

/-- Contexts in which the names of `T` and the parameters of `P` are read alike, with the same kept structs and in the same
    state of the memo. -/
structure SameReads (T P : Set String) (c c' : Context D) : Prop where
  typed : ∀ x ∈ T, c.getTyped x = c'.getTyped x
  struct : ∀ x ∈ T, c.getStruct x = c'.getStruct x
  scope : ∀ x ∈ T, (expressionScope c).bind (· x) = (expressionScope c').bind (· x)
  paramTyped : ∀ p ∈ P, c.getParamTyped p = c'.getParamTyped p
  param : ∀ p ∈ P, c.getParam p = c'.getParam p
  kept : ∀ key, c.getCachedStruct key = c'.getCachedStruct key
  memo : c.head?.map (fun f => (f.evalMemoDepth, f.evalMemo)) = c'.head?.map fun f => (f.evalMemoDepth, f.evalMemo)

inductive Overlaid (T P : Set String) : Nat → Context D → Context D → Prop
  | base {c c' : Context D} (h : SameReads T P c c') : Overlaid T P 0 c c'
  | overlay {n : Nat} {c c' : Context D} (f : Frame D) (h : Overlaid T P n c c') : Overlaid T P (n + 1) (f :: c) (f :: c')

variable {T P N : Set String} {c c' : Context D} {n : Nat}

theorem SameReads.overlay (h : SameReads T P c c') (f : Frame D) : SameReads T P (f :: c) (f :: c') where
  typed x hx := by rw [Context.getTyped, Context.getTyped, h.typed x hx]
  struct x hx := by rw [Context.getStruct, Context.getStruct, h.struct x hx]
  scope _ _ := rfl
  paramTyped p hp := by
    simp only [Context.getParamTyped, Context.getParam, h.paramTyped p hp, h.param p hp]
  param p hp := by rw [Context.getParam, Context.getParam, h.param p hp]
  kept key := by rw [Context.getCachedStruct, Context.getCachedStruct, h.kept key]
  memo := rfl

theorem SameReads.mono {T' P' : Set String} (h : SameReads T' P' c c') (hT : T ⊆ T') (hP : P ⊆ P') : SameReads T P c c' where
  typed x hx := h.typed x (hT hx)
  struct x hx := h.struct x (hT hx)
  scope x hx := h.scope x (hT hx)
  paramTyped p hp := h.paramTyped p (hP hp)
  param p hp := h.param p (hP hp)
  kept := h.kept
  memo := h.memo

theorem Overlaid.reads (h : Overlaid T P n c c') : SameReads T P c c' := by
  induction h with
  | base h => exact h
  | overlay f _ ih => exact ih.overlay f

theorem Overlaid.update {write : Frame D → Frame D}
    (hwrite : ∀ c c' : Context D, SameReads T P c c' → SameReads T P (c.update write) (c'.update write))
    (h : Overlaid T P n c c') : Overlaid T P n (c.update write) (c'.update write) := by
  cases h with
  | base h => exact .base (hwrite _ _ h)
  | overlay f h => exact .overlay (write f) h

theorem SameReads.memo_update (h : SameReads T P c c') (g : Nat → List (Ast D × Value D) → Nat × List (Ast D × Value D)) :
    SameReads T P
      (c.update fun f =>
        { f with evalMemoDepth := (g f.evalMemoDepth f.evalMemo).1, evalMemo := (g f.evalMemoDepth f.evalMemo).2 })
      (c'.update fun f =>
        { f with evalMemoDepth := (g f.evalMemoDepth f.evalMemo).1, evalMemo := (g f.evalMemoDepth f.evalMemo).2 }) := by
  rcases heads_of_memo h.memo with ⟨rfl, rfl⟩ | ⟨f, parent, f', parent', rfl, rfl, hdepth, hmemo⟩
  · exact h
  · exact ⟨h.typed, h.struct, h.scope, h.paramTyped, h.param, h.kept, by simp [Context.update, hdepth, hmemo]⟩

theorem SameReads.keep (h : SameReads T P c c') {key : String} (hkey : key ∉ T) (s : List (String × Value D)) :
    SameReads T P (c.update (·.setCachedStruct key s)) (c'.update (·.setCachedStruct key s)) := by
  rcases heads_of_memo h.memo with ⟨rfl, rfl⟩ | ⟨f, parent, f', parent', rfl, rfl, -, -⟩
  · exact h
  refine ⟨fun x hx => ?_, h.struct, h.scope, h.paramTyped, h.param, fun k => ?_, h.memo⟩
  · have hne : x ≠ key := fun heq => hkey (heq ▸ hx)
    have htyped : ∀ g : Frame D, (g.setCachedStruct key s).getTyped x = g.getTyped x := by
      intro g
      simp only [Frame.getTyped, Frame.setCachedStruct, AList.lookup_insert_ne hne]
    show ((f.setCachedStruct key s).getTyped x <|> _) = ((f'.setCachedStruct key s).getTyped x <|> _)
    rw [htyped, htyped]
    exact h.typed x hx
  · show ((f.cachedStructs.insert key s).lookup k <|> _) = ((f'.cachedStructs.insert key s).lookup k <|> _)
    by_cases hk : k = key
    · subst hk
      rw [AList.lookup_insert, AList.lookup_insert]
      rfl
    · rw [AList.lookup_insert_ne hk, AList.lookup_insert_ne hk]
      exact h.kept k

/-! ### Computations -/

/-- A computation reads nothing but the names of `T` and the parameters of `P`. -/
def ReadsOnly (T P : Set String) {α : Type} (act : EvalM D α) : Prop := ∀ n, Paired (Overlaid T P n) act act

namespace ReadsOnly
variable {α β : Type} {act : EvalM D α}

theorem pure (a : α) : ReadsOnly T P (Pure.pure a : EvalM D α) := fun _ => .pure a

theorem throw (e : Error) : ReadsOnly T P (MonadExcept.throw e : EvalM D α) := fun _ => .throw e

theorem lift (x : Except Error α) : ReadsOnly T P (liftM x : EvalM D α) := fun _ => .lift x

theorem bind {k : α → EvalM D β} (h : ReadsOnly T P act) (hk : ∀ a, ReadsOnly T P (k a)) : ReadsOnly T P (act >>= k) :=
  fun n => (h n).bind fun a => hk a n

theorem read {k : Context D → EvalM D α} (heq : ∀ c c', SameReads T P c c' → k c = k c') (hk : ∀ c, ReadsOnly T P (k c)) :
    ReadsOnly T P (get >>= k) :=
  fun n => Paired.read fun c c' hc => by
    rw [heq c c' hc.reads]
    exact hk c' n

theorem readNothing (h : ReadsOnly T P act) : ReadsOnly T P (get >>= fun _ => act) := read (fun _ _ _ => rfl) fun _ => h

theorem bindOn {Q : α → Prop} {k : α → EvalM D β} (h : ReadsOnly T P act) (hQ : ∀ c a c', act c = .ok (a, c') → Q a)
    (hk : ∀ a, Q a → ReadsOnly T P (k a)) : ReadsOnly T P (act >>= k) :=
  fun n => (h n).bindOn hQ fun a ha => hk a ha n

theorem attempt (h : ReadsOnly T P act) :
    ReadsOnly T P (tryCatch (some <$> act) fun _ => Pure.pure none : EvalM D (Option α)) :=
  fun n => Paired.tryCatch ((h.bind fun a => .pure (some a)) n) fun _ => .pure none

theorem write {f : Frame D → Frame D}
    (hwrite : ∀ c c' : Context D, SameReads T P c c' → SameReads T P (c.update f) (c'.update f)) :
    ReadsOnly T P (modify fun c => c.update f : EvalM D Unit) := by
  intro n c c' h
  exact .ok (h.update hwrite)

theorem inOverlay (tmp : Frame D) (h : ∀ n, Paired (Overlaid T P (n + 1)) act act) : ReadsOnly T P (Eval.inOverlay tmp act) := by
  intro n c c' hc
  have hact := h n _ _ (hc.overlay tmp)
  unfold Eval.inOverlay
  rcases hrun : act (tmp :: c) with e | ⟨a, d⟩
  · rw [hrun] at hact
    rcases hrun' : act (tmp :: c') with e' | q
    · rw [hrun'] at hact
      obtain ⟨⟩ := hact
      exact .error e
    · rw [hrun'] at hact
      cases hact
  · rw [hrun] at hact
    rcases hrun' : act (tmp :: c') with e' | ⟨b, d'⟩
    · rw [hrun'] at hact
      cases hact
    · rw [hrun'] at hact
      cases hact
      exact .ok hc

theorem recordFields {fields : List (String × EvalM D (Value D))} (h : ∀ x ∈ fields, ReadsOnly T P x.2) (n : Nat) :
    Paired (Overlaid T P (n + 1)) (evalRecordFields fields) (evalRecordFields fields) := by
  induction fields with
  | nil => exact .pure _
  | cons field rest ih =>
    refine (h field (by simp) (n + 1)).bind fun v => Paired.bind (fun c c' hc => ?_) fun _ =>
      (ih fun x hx => h x (by simp [hx])).bind fun vs => .pure _
    cases hc with
    | overlay f hc => exact .ok (hc.overlay _)

end ReadsOnly

section
variable [Double D] {reg : Registry D} {deeper : Ast D → EvalM D (Value D)} {args : List (Ast D)} {entry : FuncEntry D}
  {name : String}

theorem readsOnly_evalAll (h : ∀ a ∈ args, ReadsOnly T P (evalNode reg deeper a)) :
    ReadsOnly T P (evalAll (args.map (evalNode reg deeper))) :=
  fun n => paired_evalAll fun a ha => h a ha n

theorem readsOnly_scalarArgs (h : ∀ a ∈ args, ReadsOnly T P (evalNode reg deeper a)) :
    ReadsOnly T P (scalarArgs (args.map (evalNode reg deeper))) := by
  induction args with
  | nil => exact .pure _
  | cons a args ih =>
    exact ReadsOnly.bind (fun n => paired_scalarArg (h a (by simp) n)) fun d =>
      (ih fun a' ha' => h a' (by simp [ha'])).bind fun ds => .pure _

/-- No name of `T` is the key under which a result of a producer of `N` is kept. -/
def Unkept (reg : Registry D) (N T : Set String) : Prop :=
  ∀ name ∈ N, ∀ entry, reg.find name = some entry → entry.structProducer.isSome →
    ∀ values : List D, buildStructCacheKey name values ∉ T

theorem readsOnly_structResult (hunkept : Unkept reg N T) (hname : name ∈ N) (hfind : reg.find name = some entry)
    {acts : List (EvalM D (Value D))} (h : ReadsOnly T P (scalarArgs acts)) {hint : Option String}
    (hhint : ∀ key ∈ hint, ∃ values : List D, key = buildStructCacheKey name values) :
    ReadsOnly T P (structResult entry name acts hint) := by
  unfold structResult
  cases hproducer : entry.structProducer with
  | none => exact .throw _
  | some producer =>
    dsimp only
    split
    · exact .throw _
    split
    · exact .throw _
    refine h.bind fun values => ?_
    have hkey : hint.getD (buildStructCacheKey name values) ∉ T := by
      cases hint with
      | none => exact hunkept name hname entry hfind (by simp [hproducer]) values
      | some key =>
        obtain ⟨values', rfl⟩ := hhint key rfl
        exact hunkept name hname entry hfind (by simp [hproducer]) values'
    refine ReadsOnly.read (fun c c' hc => by rw [hc.kept]) fun c => ?_
    split
    · exact .pure _
    · exact (ReadsOnly.write fun c c' hc => hc.keep hkey _).bind fun _ => .pure _

/-! ### Accesses -/

def scopedField (whole object : Option (Value D)) (field : String) (otherwise : EvalM D (Value D)) : EvalM D (Value D) :=
  match whole, object with
  | some v, _ => return v
  | none, some (.struct s) => structFieldValue s field
  | none, some _ => evalError .unknownIdentifier "Expression-scope chain has no struct prefix"
  | none, none => otherwise

def unscopedField (reg : Registry D) (object field : String) (found : Option (Value D)) (number : Option D) : EvalM D (Value D) :=
  match found with
  | some v => return v
  | none =>
    match number with
    | some d => return .number d
    | none =>
      match reg.find object with
      | some entry =>
        if entry.structProducer.isSome then do producedField (← structResult entry object [] none) field
        else evalError .unknownIdentifier (unknownMessage "Unknown field access" (Ast.fullKey [object, field]))
      | none => evalError .unknownIdentifier (unknownMessage "Unknown field access" (Ast.fullKey [object, field]))

theorem evalFieldAccess_scoped (object field : String) :
    evalFieldAccess reg object field = get >>= fun c =>
      scopedField ((expressionScope c).bind (· (Ast.fullKey [object, field]))) ((expressionScope c).bind (· object)) field
        (unscopedField reg object field (c.getField object field) (c.get (Ast.fullKey [object, field]))) := by
  unfold evalFieldAccess
  refine congrArg (get >>= ·) (funext fun c => ?_)
  cases expressionScope c <;> rfl

theorem readsOnly_fieldAccess (hunkept : Unkept reg N T) {object field : String} (hwhole : Ast.fullKey [object, field] ∈ T)
    (hobject : object ∈ T) (hcalls : ∀ entry, reg.find object = some entry → entry.structProducer.isSome → object ∈ N) :
    ReadsOnly T P (evalFieldAccess reg object field) := by
  rw [evalFieldAccess_scoped]
  refine ReadsOnly.read (fun c c' hc => ?_) fun c => ?_
  · rw [hc.scope _ hwhole, hc.scope _ hobject, Context.getField, Context.getField, hc.struct _ hobject, hc.typed _ hobject,
      Context.get, Context.get, hc.typed _ hwhole]
  · unfold scopedField
    split
    · exact .pure _
    · exact .lift _
    · exact .throw _
    unfold unscopedField
    split
    · exact .pure _
    split
    · exact .pure _
    split
    · rename_i entry hfind
      split
      · rename_i hproducer
        exact (readsOnly_structResult hunkept (hcalls entry hfind hproducer) hfind (.pure _) (by simp)).bind fun s => .lift _
      · exact .throw _
    · exact .throw _

/-- The names that a chain is looked up under in the expression scope before its end (`cxpr_eval_chain_access`). -/
def chainPrefixes : String → List String → List String
  | _, [] | _, [_] => []
  | done, segment :: rest =>
    (if done == "" then segment else done ++ "." ++ segment) ::
      chainPrefixes (if done == "" then segment else done ++ "." ++ segment) rest

theorem chainPrefixes_cons (done segment next : String) (rest : List String) :
    chainPrefixes done (segment :: next :: rest) = (if done == "" then segment else done ++ "." ++ segment) ::
      chainPrefixes (if done == "" then segment else done ++ "." ++ segment) (next :: rest) := rfl

omit [Double D] in
theorem scopedPrefix_congr {scope scope' : String → Option (Value D)} :
    ∀ (done : String) (path : List String), (∀ x ∈ chainPrefixes done path, scope x = scope' x) →
      scopedPrefix scope done path = scopedPrefix scope' done path
  | _, [], _ => rfl
  | _, [_], _ => rfl
  | done, segment :: next :: rest, h => by
    simp only [chainPrefixes_cons, List.mem_cons, forall_eq_or_imp] at h
    simp only [scopedPrefix, h.1, scopedPrefix_congr _ (next :: rest) h.2]

omit [Double D] in
theorem scopedPrefix_none : ∀ (done : String) (path : List String),
    scopedPrefix (D := D) (fun _ => none) done path = (none, false)
  | _, [] => rfl
  | _, [_] => rfl
  | done, segment :: next :: rest => by simp [scopedPrefix, scopedPrefix_none _ (next :: rest)]

def scopeOf (ctx : Context D) (name : String) : Option (Value D) := (expressionScope ctx).bind (· name)

def contextChain (ctx : Context D) (path : List String) : Except Error (Value D) :=
  match path with
  | [] => .error ⟨.unknownIdentifier, "Unknown field access"⟩
  | root :: rest =>
    match ctx.getStruct root, ctx.getTyped root with
    | some s, _ | none, some (.struct s) => walkFields (Ast.fullKey path) s rest
    | none, _ => .error ⟨.unknownIdentifier, unknownMessage "Unknown identifier" root⟩

def scopedChain (scope : String → Option (Value D)) (path : List String) (otherwise : Except Error (Value D)) :
    Except Error (Value D) :=
  match scope (Ast.fullKey path) with
  | some v => .ok v
  | none =>
    match scopedPrefix scope "" path with
    | (some (s, rest), _) => walkFields (Ast.fullKey path) s rest
    | (none, true) => .error ⟨.unknownIdentifier, "Expression-scope chain has no struct prefix"⟩
    | (none, false) => otherwise

omit [Double D] in
theorem evalChainAccess_eq (ctx : Context D) (path : List String) :
    evalChainAccess ctx path = scopedChain (scopeOf ctx) path (contextChain ctx path) := by
  unfold evalChainAccess scopedChain scopeOf
  cases expressionScope ctx with
  | none =>
    simp only [Option.bind_none, scopedPrefix_none]
    cases path <;> rfl
  | some scope =>
    simp only [Option.bind_some]
    cases path <;> rfl

omit [Double D] in
theorem readsOnly_chainAccess {path : List String} (hwhole : Ast.fullKey path ∈ T) (hroot : ∀ root ∈ path.head?, root ∈ T)
    (hprefixes : ∀ x ∈ chainPrefixes "" path, x ∈ T) :
    ReadsOnly T P (do evalChainAccess (← get) path : EvalM D (Value D)) := by
  refine ReadsOnly.read (fun c c' hc => ?_) fun c => .lift _
  have hscope : scopedPrefix (scopeOf c) "" path = scopedPrefix (scopeOf c') "" path :=
    scopedPrefix_congr "" path fun x hx => hc.scope x (hprefixes x hx)
  have hcontext : contextChain c path = contextChain c' path := by
    cases path with
    | nil => rfl
    | cons root rest =>
      simp only [contextChain, hc.struct root (hroot root rfl), hc.typed root (hroot root rfl)]
  rw [evalChainAccess_eq, evalChainAccess_eq, scopedChain, scopedChain, hscope, hcontext]
  exact congrArg _ (by rw [show scopeOf c (Ast.fullKey path) = scopeOf c' (Ast.fullKey path) from hc.scope _ hwhole])

/-- What the functions and index callbacks of a registry do depends only on the values of their arguments. Native, value and
    typed functions and struct producers get nothing else. -/
structure ArgsOnly (reg : Registry D) (deeper : Ast D → EvalM D (Value D)) (N : Set String) : Prop where
  astFunc : ∀ {name entry f}, reg.find name = some entry →
    (entry.astFuncHandler <|> entry.astFunc) = some f ∨ entry.modelProducer = some f → ∀ (args : List (Ast D)) argNames c c',
      (∀ a ∈ args, (evalNode reg deeper a c).map Prod.fst = (evalNode reg deeper a c').map Prod.fst) →
        f (.call name args argNames) c = f (.call name args argNames) c'
  accessFunc : ∀ {name entry f}, reg.find name = some entry →
    entry.astFuncHandler = some f ∨ entry.modelProducer = some f → ∀ (args : List (Ast D)) argNames field c c',
      (∀ a ∈ args, (evalNode reg deeper a c).map Prod.fst = (evalNode reg deeper a c').map Prod.fst) →
        f (.producerAccess name args argNames field) c = f (.producerAccess name args argNames field) c'
  capability : ∀ {target capability}, reg.selectIndexCapability target = .ok (some capability) → ∀ offset c c',
    (evalNode reg deeper target c).map Prod.fst = (evalNode reg deeper target c').map Prod.fst →
      capability.resolve target offset c = capability.resolve target offset c'
  resolver : ∀ {resolver}, reg.lookbackResolver = some resolver → ∀ target index c c',
    (∀ a ∈ [target, index], (evalNode reg deeper a c).map Prod.fst = (evalNode reg deeper a c').map Prod.fst) →
      resolver target index c = resolver target index c'
  defined : ∀ {name entry}, reg.find name = some entry → entry.definedBody.isSome || !entry.definedReturnFields.isEmpty →
    ∀ {T P}, Unkept reg N T → ∀ args : List (Ast D), (∀ a ∈ args, ReadsOnly T P (evalNode reg deeper a)) →
      ReadsOnly T P (evalDefinedFunction deeper entry (args.map fun a => (a, evalNode reg deeper a)))
  fields : ∀ {name entry}, reg.find name = some entry → ∀ {T P}, Unkept reg N T → ∀ values,
    ReadsOnly T P (inOverlay (bindArgs entry.definedParamNames values) (evalReturnFields deeper entry.definedReturnFields))

variable {act index : EvalM D (Value D)} {α : Type} {t i ast : Ast D} {param : String → Option D} {key : String}

omit [Double D] in
theorem ReadsOnly.results (h : ReadsOnly T P act) (hc : Overlaid T P n c c') :
    (act c).map Prod.fst = (act c').map Prod.fst := (h n c c' hc).results

omit [Double D] in
theorem ReadsOnly.ofReads {f : Context D → Except Error α} (h : ∀ n c c', Overlaid T P n c c' → f c = f c') :
    ReadsOnly T P (do f (← get) : EvalM D α) := by
  intro n c c' hc
  show Together _ ((liftM (f c) : EvalM D α) c) ((liftM (f c') : EvalM D α) c')
  rw [h n c c' hc]
  exact Paired.lift _ c c' hc

omit [Double D] in
theorem ReadsOnly.ofReads_bind {β : Type} {f : Context D → Except Error α} {k : α → EvalM D β}
    (h : ∀ n c c', Overlaid T P n c c' → f c = f c') (hk : ∀ a, ReadsOnly T P (k a)) :
    ReadsOnly T P (do k (← f (← get)) : EvalM D β) := by
  intro n c c' hc
  show Together _ (((liftM (f c) : EvalM D α) >>= k) c) (((liftM (f c') : EvalM D α) >>= k) c')
  rw [h n c c' hc]
  exact ((Paired.lift _).bind fun a => hk a n) c c' hc

omit [Double D] in
theorem ReadsOnly.ite {p : Prop} [Decidable p] {act act' : EvalM D α} (h : ReadsOnly T P act)
    (h' : ReadsOnly T P act') : ReadsOnly T P (if p then act else act') := by
  split
  · exact h
  · exact h'

/-! ### Index -/

def storedTarget (ctx : Context D) : Ast D → Option (Value D)
  | .identifier name => ctx.getTyped name
  | _ => none

def resolvedIndex (reg : Registry D) (t i : Ast D) (target index : EvalM D (Value D))
    (resolver : Ast D → Ast D → Context D → Except Error (Option (Value D))) : EvalM D (Value D) := do
  let (offset, flatTarget, complete) := lookbackParts t i
  let moved := (Ir.lookbackLiteralOffset i).isSome && isIndex t &&
    (match t with
      | .index _ i' => ((Ir.lookbackLiteralOffset i').bind (Ir.lookbackAddUnsigned ((Ir.lookbackLiteralOffset i).getD 0))).isSome
      | _ => false)
  let value ← tryCatch (some <$> target) fun _ => pure none
  match value with
  | some (.array values) => arrayIndex values index
  | _ =>
    let resolved ← (resolver (if complete then flatTarget else t)
      (if moved && complete then .number (Double.ofNat offset) else i) (← get) : Except Error _)
    match resolved with
    | some v => return v
    | none =>
      if isIdentifier flatTarget then evalError .typeMismatch "Index target is not indexable"
      else
        match ← (reg.selectIndexCapability flatTarget : Except Error _) with
        | some capability => resolveCapability capability flatTarget (capabilityIndex t i index)
        | none => evalError .typeMismatch "Index target is not indexable"

def indexThrough (reg : Registry D) (t i : Ast D) (target index : EvalM D (Value D)) :
    Option (IndexCapability D) → EvalM D (Value D)
  | some capability => resolveCapability capability (lookbackParts t i).2.1 (capabilityIndex t i index)
  | none =>
    match reg.lookbackResolver with
    | none => target >>= elementOf index
    | some resolver => resolvedIndex reg t i target index resolver

def unstoredIndex (reg : Registry D) (t i : Ast D) (target index : EvalM D (Value D)) : EvalM D (Value D) :=
  if isIdentifier (lookbackParts t i).2.1 || reg.lookbackResolver.isNone then do
    indexThrough reg t i target index (← (reg.selectIndexCapability (lookbackParts t i).2.1 : Except Error _))
  else indexThrough reg t i target index none

theorem evalIndex_eq (t i : Ast D) (target index : EvalM D (Value D)) :
    evalIndex reg t i target index = get >>= fun c =>
      storedElement index (unstoredIndex reg t i target index) (storedTarget c t) := by
  rfl

omit [Double D] in
theorem storedTarget_eq (hname : ∀ name, t = .identifier name → name ∈ T) (hc : SameReads T P c c') :
    storedTarget c t = storedTarget c' t := by
  cases t with
  | identifier name => exact hc.typed name (hname name rfl)
  | _ => rfl

theorem flattenLookback_mem : ∀ (t : Ast D) (offset : Nat), (flattenLookback offset t).2.1 ∈ subexprs t
  | .index target i, offset => by
    unfold flattenLookback
    split
    · exact List.mem_cons_of_mem _ (List.mem_append_left _ (flattenLookback_mem target _))
    · exact mem_subexprs_self _
  | .number _, _ | .int64 _, _ | .bool _, _ | .string _, _ | .array _, _ | .record _ _, _ | .identifier _, _ | .param _, _
  | .fieldAccess _ _, _ | .fieldOf _ _, _ | .chainAccess _, _ | .producerAccess _ _ _ _, _ | .binary _ _ _, _
  | .unary _ _, _ | .call _ _ _, _ | .ternary _ _ _, _ => mem_subexprs_self _

theorem lookbackParts_mem (t i : Ast D) : (lookbackParts t i).2.1 ∈ subexprs t := by
  unfold lookbackParts
  split
  · exact flattenLookback_mem t _
  · exact mem_subexprs_self t

theorem readsOnly_arrayIndex {values : List (Value D)} (h : ReadsOnly T P index) :
    ReadsOnly T P (arrayIndex values index) := fun n => paired_arrayIndex (h n)

theorem readsOnly_resolveCapability (hreg : ArgsOnly reg deeper N) {target : Ast D} {capability : IndexCapability D}
    (hcapability : reg.selectIndexCapability target = .ok (some capability)) (ht : ReadsOnly T P (evalNode reg deeper target)) (hi : ReadsOnly T P index) : ReadsOnly T P (resolveCapability capability target index) := by
  refine hi.bind fun v => (ReadsOnly.lift _).bind fun offset => ReadsOnly.ofReads fun n c c' hc => ?_
  exact hreg.capability hcapability offset c c' (ht.results hc)

theorem readsOnly_capabilityIndex (hi : ReadsOnly T P index) :
    ReadsOnly T P (capabilityIndex t i index) := by
  unfold capabilityIndex
  exact .ite (.pure _) hi

theorem readsOnly_evalNode_ite {p : Prop} [Decidable p] {a b : Ast D} (ha : ReadsOnly T P (evalNode reg deeper a))
    (hb : ReadsOnly T P (evalNode reg deeper b)) : ReadsOnly T P (evalNode reg deeper (if p then a else b)) := by
  split
  · exact ha
  · exact hb

theorem readsOnly_resolvedIndex (hreg : ArgsOnly reg deeper N)
    (ht : ∀ x ∈ subexprs t, ReadsOnly T P (evalNode reg deeper x)) (hi : ReadsOnly T P (evalNode reg deeper i))
    {resolver : Ast D → Ast D → Context D → Except Error (Option (Value D))} (hresolver : reg.lookbackResolver = some resolver) :
    ReadsOnly T P (resolvedIndex reg t i (evalNode reg deeper t) (evalNode reg deeper i) resolver) := by
  have hflat := ht _ (lookbackParts_mem t i)
  unfold resolvedIndex
  refine (ht t (mem_subexprs_self t)).attempt.bind fun value => ?_
  split
  · exact readsOnly_arrayIndex hi
  refine ReadsOnly.ofReads_bind (fun n c c' hc => ?_) fun resolved => ?_
  · refine hreg.resolver hresolver _ _ c c' fun a ha => ?_
    have hall : ReadsOnly T P (evalNode reg deeper a) := by
      simp only [List.mem_cons, List.not_mem_nil, or_false] at ha
      rcases ha with rfl | rfl
      · exact readsOnly_evalNode_ite hflat (ht t (mem_subexprs_self t))
      · exact readsOnly_evalNode_ite (.pure _) hi
    exact hall.results hc
  split
  · exact .pure _
  refine .ite (.throw _) ((ReadsOnly.lift _).bindOn (Q := fun found => reg.selectIndexCapability (lookbackParts t i).2.1 = .ok found)
    (fun c a c' hrun => (lift_apply_eq_ok.mp hrun).1) fun found hfound => ?_)
  split
  · exact readsOnly_resolveCapability hreg hfound hflat (readsOnly_capabilityIndex hi)
  · exact .throw _

theorem readsOnly_evalIndex (hreg : ArgsOnly reg deeper N) (hname : ∀ name, t = .identifier name → name ∈ T)
    (ht : ∀ x ∈ subexprs t, ReadsOnly T P (evalNode reg deeper x)) (hi : ReadsOnly T P (evalNode reg deeper i)) :
    ReadsOnly T P (evalIndex reg t i (evalNode reg deeper t) (evalNode reg deeper i)) := by
  rw [evalIndex_eq]
  refine ReadsOnly.read (fun c c' hc => by rw [storedTarget_eq hname hc]) fun c => ?_
  unfold storedElement
  split
  · exact readsOnly_arrayIndex hi
  have hthrough : ∀ found, (∀ capability ∈ found, reg.selectIndexCapability (lookbackParts t i).2.1 = .ok (some capability)) →
      ReadsOnly T P (indexThrough reg t i (evalNode reg deeper t) (evalNode reg deeper i) found) := by
    intro found hfound
    unfold indexThrough
    split
    · exact readsOnly_resolveCapability hreg (hfound _ rfl) (ht _ (lookbackParts_mem t i)) (readsOnly_capabilityIndex hi)
    split
    · refine (ht t (mem_subexprs_self t)).bind fun v => ?_
      unfold elementOf
      split
      · exact readsOnly_arrayIndex hi
      · exact .throw _
    · rename_i resolver hresolver
      exact readsOnly_resolvedIndex hreg ht hi hresolver
  unfold unstoredIndex
  refine .ite ((ReadsOnly.lift _).bindOn (Q := fun found => reg.selectIndexCapability (lookbackParts t i).2.1 = .ok found)
    (fun c a c' hrun => (lift_apply_eq_ok.mp hrun).1) fun found hfound => hthrough found ?_) (hthrough none (by simp))
  rintro capability rfl
  exact hfound

theorem constantDouble_congr {param param' : String → Option D} :
    ∀ a : Ast D, (∀ p, .param p ∈ subexprs a → param p = param' p) → constantDouble param a = constantDouble param' a
  | .param p, h => h p (mem_subexprs_self _)
  | .unary .minus a, h => by
    rw [constantDouble, constantDouble, constantDouble_congr a fun p hp => h p (by simp [subexprs, hp])]
  | .binary op l r, h => by
    rw [constantDouble, constantDouble, constantDouble_congr l fun p hp => h p (by simp [subexprs, hp]),
      constantDouble_congr r fun p hp => h p (by simp [subexprs, hp])]
  | .ternary c t e, h => by
    rw [constantDouble, constantDouble, constantDouble_congr c fun p hp => h p (by simp [subexprs, hp]),
      constantDouble_congr t fun p hp => h p (by simp [subexprs, hp]),
      constantDouble_congr e fun p hp => h p (by simp [subexprs, hp])]
  | .unary .not _, _ | .number _, _ | .int64 _, _ | .bool _, _ | .string _, _ | .array _, _ | .record _ _, _ | .identifier _, _
  | .fieldAccess _ _, _ | .fieldOf _ _, _ | .chainAccess _, _ | .producerAccess _ _ _ _, _ | .call _ _ _, _ | .index _ _, _ => rfl

theorem constantKey_congr {param' : String → Option D} (h : ∀ a ∈ args, ∀ p, .param p ∈ subexprs a → param p = param' p) :
    constantKey name args param = constantKey name args param' := by
  have hvalues : args.mapM (constantDouble param) = args.mapM (constantDouble param') := by
    induction args with
    | nil => rfl
    | cons a args ih =>
      rw [List.mapM_cons, List.mapM_cons, constantDouble_congr a (h a (by simp)), ih fun a' ha' => h a' (by simp [ha'])]
  rw [constantKey, constantKey, hvalues]

theorem constantKey_key (h : constantKey name args param = some key) :
    ∃ values : List D, key = buildStructCacheKey name values := by
  unfold constantKey at h
  split at h
  · cases h
  · obtain ⟨values, -, rfl⟩ := Option.map_eq_some_iff.mp h
    exact ⟨values, rfl⟩

def knownKey (name : String) (args ordered : List (Ast D)) (argNames : List (Option String)) (param : String → Option D) :
    Option String :=
  (if Ast.callUsesNamedArgs args.length argNames then none else constantKey name args fun _ => none) <|>
    (if args.isEmpty then none else constantKey name ordered param)

def keyOrValues (name : String) (argc : Nat) (acts : List (EvalM D (Value D))) : Option String → EvalM D (Option String)
  | some key => return some key
  | none =>
    if maxCallArgs < argc then return none
    else do
      match ← tryCatch (some <$> scalarArgs acts) fun _ => pure none with
      | some values => return if values.all Double.isfinite then some (buildStructCacheKey name values) else none
      | none => return none

theorem producerKey_eq (argNames : List (Option String)) (ordered : List (Ast D × EvalM D (Value D))) :
    producerKey name args argNames ordered = get >>= fun c =>
      keyOrValues name args.length (ordered.map (·.2)) (knownKey name args (ordered.map (·.1)) argNames c.getParam) := rfl

theorem knownKey_key {ordered : List (Ast D)} {argNames : List (Option String)}
    (h : knownKey name args ordered argNames param = some key) : ∃ values : List D, key = buildStructCacheKey name values := by
  unfold knownKey at h
  split at h
  · split at h
    · cases h
    · exact constantKey_key h
  · cases hconst : constantKey name args fun _ => none with
    | some key' =>
      rw [hconst] at h
      cases h
      exact constantKey_key hconst
    | none =>
      rw [hconst] at h
      split at h
      · cases h
      · exact constantKey_key h

theorem producerKey_key {argNames : List (Option String)} {ordered : List (Ast D × EvalM D (Value D))}
    (h : producerKey name args argNames ordered c = .ok (some key, c')) :
    ∃ values : List D, key = buildStructCacheKey name values := by
  rw [producerKey_eq, bind_apply_ok (rfl : (get : EvalM D (Context D)) c = .ok (c, c))] at h
  cases hknown : knownKey name args (ordered.map (·.1)) argNames c.getParam with
  | some known =>
    rw [hknown] at h
    cases h
    exact knownKey_key hknown
  | none =>
    rw [hknown] at h
    unfold keyOrValues at h
    dsimp only at h
    split at h
    · cases h
    obtain ⟨found, d, -, h⟩ := bind_apply_eq_ok.mp h
    cases found with
    | none => cases h
    | some values =>
      have hkey : (if values.all Double.isfinite then some (buildStructCacheKey name values) else none) = some key :=
        (Prod.mk.inj (Except.ok.inj h)).1
      split at hkey
      · cases hkey
        exact ⟨values, rfl⟩
      · cases hkey

theorem readsOnly_producerKey {ordered : List (Ast D)} (h : ∀ a ∈ ordered, ReadsOnly T P (evalNode reg deeper a))
    (hparams : ∀ a ∈ ordered, ∀ p, .param p ∈ subexprs a → p ∈ P) (argNames : List (Option String)) :
    ReadsOnly T P (producerKey name args argNames (ordered.map fun a => (a, evalNode reg deeper a))) := by
  have hasts : (ordered.map fun a => (a, evalNode reg deeper a)).map (·.1) = ordered := by
    rw [List.map_map]
    exact List.map_id _
  have hacts : (ordered.map fun a => (a, evalNode reg deeper a)).map (·.2) = ordered.map (evalNode reg deeper) := by
    rw [List.map_map]
    rfl
  rw [producerKey_eq, hasts, hacts]
  refine ReadsOnly.read (fun c c' hc => ?_) fun c => ?_
  · rw [knownKey, knownKey, constantKey_congr fun a ha p hp => hc.param p (hparams a ha p hp)]
  unfold keyOrValues
  split
  · exact .pure _
  refine .ite (.pure _) ((readsOnly_scalarArgs h).attempt.bind fun values => ?_)
  split
  · exact .pure _
  · exact .pure _

theorem readsOnly_producerAccess (hreg : ArgsOnly reg deeper N) (hunkept : Unkept reg N T) (hname : name ∈ N)
    (h : ∀ a ∈ args, ReadsOnly T P (evalNode reg deeper a)) (hparams : ∀ a ∈ args, ∀ p, .param p ∈ subexprs a → p ∈ P)
    (argNames : List (Option String)) (field : String) :
    ReadsOnly T P (evalProducerAccess reg deeper name args argNames field (evalActs reg deeper args)) := by
  unfold evalProducerAccess
  cases hfind : reg.find name with
  | none => exact .throw _
  | some entry =>
    refine .ite (.throw _) ?_
    rw [callBindArgs_zip_evalActs]
    cases hbind : callBindArgs entry args argNames with
    | error e => exact fun n c c' hc => .error e
    | ok ordered =>
      have hordered : ∀ a ∈ ordered, ReadsOnly T P (evalNode reg deeper a) := fun a ha =>
        h a ((callBindArgs_mem hbind).2 a ha)
      have hacts : (ordered.map fun a => (a, evalNode reg deeper a)).map (·.2) = ordered.map (evalNode reg deeper) := by
        rw [List.map_map]
        rfl
      simp only [Except.map, lift_ok_bind]
      cases hmodel : entry.modelProducer with
      | some producer =>
        exact ReadsOnly.ofReads fun n c c' hc =>
          hreg.accessFunc hfind (.inr hmodel) args argNames field c c' fun a ha => (h a ha).results hc
      | none =>
        dsimp only
        rw [hacts]
        refine .ite ((readsOnly_evalAll hordered).bind fun values => (hreg.fields hfind hunkept values).bind fun s => .lift _) ?_
        refine (readsOnly_producerKey hordered (fun a ha => hparams a ((callBindArgs_mem hbind).2 a ha)) argNames).bindOn
          (Q := fun found => ∀ key ∈ found, ∃ values : List D, key = buildStructCacheKey name values)
          (fun c found c' hrun key hkey => ?_) fun key hkey => ?_
        · obtain rfl : found = some key := hkey
          exact producerKey_key hrun
        · refine ReadsOnly.read (fun c c' hc => ?_) fun c => ?_
          · rw [show c.getCachedStruct = c'.getCachedStruct from funext hc.kept]
          split
          · exact .lift _
          · exact (readsOnly_structResult hunkept hname hfind (readsOnly_scalarArgs hordered) hkey).bind fun s => .lift _

omit [Double D] in
theorem structFunctionArgs_congr (entry : FuncEntry D) (hc : SameReads T P c c') :
    ∀ as : List (Ast D), (∀ name, .identifier name ∈ as → name ∈ T) →
      structFunctionArgs entry c as = structFunctionArgs entry c' as
  | [], _ => rfl
  | .identifier name :: rest, h => by
    have hname : name ∈ T := h name (by simp)
    have hfield : ∀ field, c.getField name field = c'.getField name field := fun field => by
      rw [Context.getField, Context.getField, hc.struct name hname, hc.typed name hname]
    rw [structFunctionArgs, structFunctionArgs, structFunctionArgs_congr entry hc rest fun x hx => h x (by simp [hx])]
    simp only [hfield]
  | .number _ :: _, _ | .int64 _ :: _, _ | .bool _ :: _, _ | .string _ :: _, _ | .array _ :: _, _ | .record _ _ :: _, _
  | .param _ :: _, _ | .fieldAccess _ _ :: _, _ | .fieldOf _ _ :: _, _ | .chainAccess _ :: _, _
  | .producerAccess _ _ _ _ :: _, _ | .binary _ _ _ :: _, _ | .unary _ _ :: _, _ | .call _ _ _ :: _, _ | .index _ _ :: _, _
  | .ternary _ _ _ :: _, _ => rfl

theorem readsOnly_evalCall (hreg : ArgsOnly reg deeper N) (hunkept : Unkept reg N T) (hname : name ∈ N)
    (h : ∀ a ∈ args, ReadsOnly T P (evalNode reg deeper a)) (hnames : ∀ name, .identifier name ∈ args → name ∈ T)
    (argNames : List (Option String)) :
    ReadsOnly T P (evalCall reg deeper name args argNames (evalActs reg deeper args)) := by
  unfold evalCall
  cases hfind : reg.find name with
  | none => exact .readNothing (.throw _)
  | some entry =>
    cases hastFunc : entry.astFuncHandler <|> entry.astFunc with
    | some f =>
      simp only [hastFunc]
      exact ReadsOnly.ofReads fun n c c' hc =>
        hreg.astFunc hfind (.inl hastFunc) args argNames c c' fun a ha => (h a ha).results hc
    | none =>
      simp only [hastFunc]
      by_cases hpure : ((entry.structProducer.isSome && entry.syncFunc.isNone && entry.valueFunc.isNone) &&
          !Ast.callUsesNamedArgs args.length argNames) = true
      · simp only [hpure, if_true]
        refine ReadsOnly.read (fun c c' hc => ?_) fun c => ?_
        · rw [show c.getCachedStruct = c'.getCachedStruct from funext hc.kept]
        split
        · exact .pure _
        · refine (readsOnly_structResult hunkept hname hfind ?_ fun key hkey => constantKey_key hkey).bind fun s => .pure _
          rw [evalActs_eq_map]
          exact readsOnly_scalarArgs h
      · simp only [hpure]
        rw [callBindArgs_zip_evalActs]
        cases hbind : callBindArgs entry args argNames with
        | error e => exact .readNothing fun n c c' hc => .error e
        | ok ordered =>
          have hacts : (ordered.map fun a => (a, evalNode reg deeper a)).map (·.2) = ordered.map (evalNode reg deeper) := by
            rw [List.map_map]
            rfl
          have hasts : (ordered.map fun a => (a, evalNode reg deeper a)).map (·.1) = ordered := by
            rw [List.map_map]
            exact List.map_id _
          have hordered : ∀ a ∈ ordered, ReadsOnly T P (evalNode reg deeper a) := fun a ha =>
            h a ((callBindArgs_mem hbind).2 a ha)
          have hhost : ReadsOnly T P (callHost reg entry name args.length (ordered.map (evalNode reg deeper))) := fun n =>
            paired_callHost (fun _ => rfl) entry name args.length fun a ha => hordered a ha n
          simp only [Except.map, lift_ok_bind, hacts, hasts, Bool.false_eq_true, if_false]
          cases hmodel : entry.modelProducer with
          | some producer =>
            exact ReadsOnly.ofReads fun n c c' hc =>
              hreg.astFunc hfind (.inr hmodel) args argNames c c' fun a ha => (h a ha).results hc
          | none =>
            by_cases hdefined : (entry.definedBody.isSome || !entry.definedReturnFields.isEmpty) = true
            · simp only [hdefined, if_true]
              exact .readNothing (hreg.defined hfind hdefined hunkept ordered hordered)
            by_cases hproducer : (entry.structProducer.isSome && entry.syncFunc.isNone && entry.valueFunc.isNone) = true
            · simp only [hdefined, hproducer, if_true]
              exact .readNothing ((readsOnly_structResult hunkept hname hfind (readsOnly_scalarArgs hordered) (by simp)).bind
                fun s => .pure _)
            simp only [hdefined, hproducer, Bool.false_eq_true, if_false]
            rcases entry.structFields with _ | fields
            · exact .readNothing hhost
            rcases entry.structProducer with _ | producer
            · rcases entry.syncFunc with _ | f
              · exact .readNothing hhost
              · refine ReadsOnly.read (fun c c' hc => ?_) fun c => ?_
                · dsimp only
                  rw [structFunctionArgs_congr entry hc ordered fun x hx => hnames x ((callBindArgs_mem hbind).2 _ hx)]
                · exact .ite (.throw _) ((ReadsOnly.lift _).bind fun values => .pure _)
            · exact .readNothing hhost

/-- What a node reads by itself is in `T` and `P`. -/
def Within (T P : Set String) : Ast D → Prop
  | .identifier name => name ∈ T
  | .param name => name ∈ P
  | .fieldAccess object field => Ast.fullKey [object, field] ∈ T ∧ object ∈ T
  | .chainAccess path => Ast.fullKey path ∈ T ∧ (∀ root ∈ path.head?, root ∈ T) ∧ ∀ x ∈ chainPrefixes "" path, x ∈ T
  | _ => True

/-- The functions that the evaluation of a node can come to call: a field access calls a producer of its object's name where
    the context has no such variable. -/
def ownCalls (reg : Registry D) : Ast D → List String
  | .call name _ _ => [name]
  | .producerAccess name _ _ _ => [name]
  | .fieldAccess object _ => if (reg.find object).any (·.structProducer.isSome) then [object] else []
  | _ => []

theorem readsOnly_memoGet (ast : Ast D) : ReadsOnly T P (memoGet ast) := by
  intro n c c' hc
  rcases heads_of_memo hc.reads.memo with ⟨rfl, rfl⟩ | ⟨f, parent, f', parent', rfl, rfl, hdepth, hmemo⟩
  · exact .ok hc
  · simp only [memoGet, hdepth, hmemo]
    split <;> exact .ok hc

omit [Double D] in
theorem readsOnly_memoSet (ast : Ast D) (v : Value D) : ReadsOnly T P (memoSet ast v) := by
  intro n c c' hc
  rcases heads_of_memo hc.reads.memo with ⟨rfl, rfl⟩ | ⟨f, parent, f', parent', rfl, rfl, hdepth, hmemo⟩
  · exact .ok hc
  · have hremember : ∀ entry : Ast D × Value D, Overlaid T P n ({ f with evalMemo := f.evalMemo ++ [entry] } :: parent)
        ({ f' with evalMemo := f'.evalMemo ++ [entry] } :: parent') := fun entry =>
      hc.update fun _ _ h => h.memo_update fun depth memo => (depth, memo ++ [entry])
    simp only [memoSet]
    by_cases hzero : f'.evalMemoDepth = 0
    · rw [if_pos (hdepth.trans hzero), if_pos hzero]
      exact .ok hc
    · rw [if_neg fun h => hzero (hdepth.symm.trans h), if_neg hzero]
      cases v with
      | number | bool => exact .ok (hremember _)
      | _ => exact .ok hc

omit [Double D] in
theorem readsOnly_fieldOfValue {field : String} (h : ReadsOnly T P act) :
    ReadsOnly T P (evalNode.fieldOfValue field act) := by
  refine h.bind fun v => ?_
  cases v with
  | struct s => exact .lift _
  | _ => exact .throw _

theorem readsOnly_memoized (h : ReadsOnly T P act) :
    ReadsOnly T P (memoized reg name ast act) := fun n =>
  paired_memoized (fun _ => rfl) name (readsOnly_memoGet ast n) (fun v => readsOnly_memoSet ast v n) (h n)

theorem readsOnly_node (hreg : ArgsOnly reg deeper N) (hunkept : Unkept reg N T)
    (hwithin : ∀ x ∈ subexprs ast, Within T P x) (hcalls : ∀ x ∈ subexprs ast, ∀ name ∈ ownCalls reg x, name ∈ N)
    (hparts : ∀ p ∈ ast.parts, ∀ x ∈ subexprs p, ReadsOnly T P (evalNode reg deeper x)) :
    ReadsOnly T P (evalNode reg deeper ast) := by
  have hself : Within T P ast := hwithin ast (mem_subexprs_self ast)
  have hpart : ∀ p ∈ ast.parts, ReadsOnly T P (evalNode reg deeper p) := fun p hp => hparts p hp p (mem_subexprs_self p)
  cases ast with
  | number | int64 | bool | string => exact .pure _
  | array es =>
    rw [evalNode, evalActs_eq_map]
    exact (readsOnly_evalAll hpart).bind fun vs => .pure _
  | record names values =>
    rw [evalNode, evalActs_eq_map]
    refine (ReadsOnly.inOverlay {} (ReadsOnly.recordFields fun x hx => ?_)).bind fun s => .pure _
    obtain ⟨p, hp, hact⟩ := List.mem_map.mp (List.of_mem_zip hx).2
    rw [← hact]
    exact hpart p hp
  | identifier x =>
    rw [evalNode]
    refine ReadsOnly.read (fun c c' hc => by rw [hc.typed x hself]) fun c => ?_
    split
    · exact .pure _
    · exact .throw _
  | param p =>
    rw [evalNode]
    refine ReadsOnly.read (fun c c' hc => by rw [hc.paramTyped p hself]) fun c => ?_
    split
    · exact .pure _
    · exact .throw _
  | fieldAccess object field =>
    rw [evalNode]
    refine readsOnly_fieldAccess hunkept hself.1 hself.2 fun entry hfind hproducer => ?_
    exact hcalls _ (mem_subexprs_self _) object (by simp [ownCalls, hfind, hproducer])
  | chainAccess path =>
    rw [evalNode]
    exact readsOnly_chainAccess hself.1 hself.2.1 hself.2.2
  | unary op a =>
    rw [evalNode]
    exact (hpart a (by simp [parts])).bind fun v => .lift _
  | binary op l r =>
    rw [evalNode]
    exact fun n => paired_evalBinary (hpart l (by simp [parts]) n) (hpart r (by simp [parts]) n)
  | ternary c t e =>
    rw [evalNode]
    exact fun n => paired_evalTernary (hpart c (by simp [parts]) n) (hpart t (by simp [parts]) n) (hpart e (by simp [parts]) n)
  | index t i =>
    rw [evalNode]
    refine readsOnly_evalIndex hreg ?_ (hparts t (by simp [parts])) (hpart i (by simp [parts]))
    rintro x rfl
    exact hwithin (.identifier x) (by simp [subexprs])
  | call f args argNames =>
    rw [evalNode]
    refine readsOnly_memoized (readsOnly_evalCall hreg hunkept (hcalls _ (mem_subexprs_self _) f (by simp [ownCalls])) hpart
      (fun x hx => ?_) argNames)
    exact hwithin (.identifier x) (mem_subexprs.mpr (.inr ⟨_, hx, mem_subexprs_self _⟩))
  | producerAccess f args argNames field =>
    rw [evalNode]
    cases hhandler : (reg.find f).bind (·.astFuncHandler) with
    | some handler =>
      obtain ⟨entry, hfind, hentry⟩ := Option.bind_eq_some_iff.mp hhandler
      exact ReadsOnly.ofReads fun n c c' hc =>
        hreg.accessFunc hfind (.inl hentry) args argNames field c c' fun a ha => (hpart a ha).results hc
    | none =>
      refine readsOnly_producerAccess hreg hunkept (hcalls _ (mem_subexprs_self _) f (by simp [ownCalls])) hpart
        (fun a ha p hp => ?_) argNames field
      exact hwithin (.param p) (mem_subexprs.mpr (.inr ⟨a, ha, hp⟩))
  | fieldOf base field =>
    have hbase : ReadsOnly T P (evalNode reg deeper base) := hpart base (by simp [parts])
    cases base with
    | call f args argNames =>
      have hargs : ∀ a ∈ args, ∀ x ∈ subexprs a, x ∈ subexprs (.call f args argNames) := fun a ha x hx =>
        mem_subexprs.mpr (.inr ⟨a, ha, hx⟩)
      have hbelow : ∀ x ∈ subexprs (.call f args argNames), Within T P x := fun x hx =>
        hwithin x (mem_subexprs.mpr (.inr ⟨.call f args argNames, by simp [parts], hx⟩))
      have hread : ∀ a ∈ args, ReadsOnly T P (evalNode reg deeper a) := fun a ha =>
        hparts (.call f args argNames) (by simp [parts]) a (hargs a ha a (mem_subexprs_self a))
      have hnames : ∀ x, .identifier x ∈ args → x ∈ T := fun x hx => hbelow _ (hargs _ hx _ (mem_subexprs_self _))
      have hf : f ∈ N := hcalls (.call f args argNames)
        (mem_subexprs.mpr (.inr ⟨_, by simp [parts], mem_subexprs_self _⟩)) f (by simp [ownCalls])
      have hcall := readsOnly_evalCall hreg hunkept hf hread hnames argNames
      rw [evalNode]
      cases hfind : reg.find f with
      | none => exact readsOnly_fieldOfValue hcall
      | some entry =>
        refine .ite (readsOnly_producerAccess hreg hunkept hf hread (fun a ha p hp => ?_) argNames field)
          (readsOnly_fieldOfValue (readsOnly_memoized hcall))
        exact hbelow (.param p) (hargs a ha _ hp)
    | _ => exact readsOnly_fieldOfValue hbase

theorem readsOnly_evalNode (hreg : ArgsOnly reg deeper N) (hunkept : Unkept reg N T) :
    ∀ ast : Ast D, (∀ x ∈ subexprs ast, Within T P x) → (∀ x ∈ subexprs ast, ∀ name ∈ ownCalls reg x, name ∈ N) →
      ∀ x ∈ subexprs ast, ReadsOnly T P (evalNode reg deeper x) := by
  refine parts_induction fun ast ih hwithin hcalls => ?_
  have hparts : ∀ p ∈ ast.parts, ∀ x ∈ subexprs p, ReadsOnly T P (evalNode reg deeper x) := fun p hp =>
    ih p hp (fun x hx => hwithin x (mem_subexprs.mpr (.inr ⟨p, hp, hx⟩))) fun x hx =>
      hcalls x (mem_subexprs.mpr (.inr ⟨p, hp, hx⟩))
  intro x hx
  rcases mem_subexprs.mp hx with rfl | ⟨p, hp, hx⟩
  · exact readsOnly_node hreg hunkept hwithin hcalls hparts
  · exact hparts p hp x hx

theorem evalAst_sameReads {depth : Nat} (hreg : ∀ d, ArgsOnly reg (evalDepth reg d) N) (hunkept : Unkept reg N T) (hwithin : ∀ x ∈ subexprs ast, Within T P x)
    (hcalls : ∀ x ∈ subexprs ast, ∀ name ∈ ownCalls reg x, name ∈ N) (hc : SameReads T P c c') :
    (evalAst reg depth ast c).map Prod.fst = (evalAst reg depth ast c').map Prod.fst := by
  unfold evalAst
  cases typecheck ast reg with
  | error e => rfl
  | ok t =>
    cases depth with
    | zero => rfl
    | succ depth =>
      have hentered : SameReads T P (memoEnter c) (memoEnter c') :=
        hc.memo_update fun depth memo => (depth + 1, if depth = 0 then [] else memo)
      have hnode := (readsOnly_evalNode (hreg depth) hunkept ast hwithin hcalls ast (mem_subexprs_self ast)).results (.base hentered)
      show ((evalNode reg (evalDepth reg depth) ast (memoEnter c)) >>= _).map _ =
        ((evalNode reg (evalDepth reg depth) ast (memoEnter c')) >>= _).map _
      rcases hleft : evalNode reg (evalDepth reg depth) ast (memoEnter c) with e | ⟨v, d⟩
      · rw [hleft] at hnode
        rcases hright : evalNode reg (evalDepth reg depth) ast (memoEnter c') with e' | ⟨v', d'⟩
        · rw [hright] at hnode
          cases hnode
          rfl
        · rw [hright] at hnode
          cases hnode
      · rw [hleft] at hnode
        rcases hright : evalNode reg (evalDepth reg depth) ast (memoEnter c') with e' | ⟨v', d'⟩
        · rw [hright] at hnode
          cases hnode
        · rw [hright] at hnode
          exact hnode

theorem argsOnly_of_values
    (hentry : ∀ name entry, reg.find name = some entry → entry.astFuncHandler = none ∧ entry.astFunc = none ∧
      entry.modelProducer = none ∧ entry.definedBody = none ∧ entry.definedReturnFields = [])
    (hcapability : ∀ target, reg.selectIndexCapability target = .ok none) (hresolver : reg.lookbackResolver = none) :
    ArgsOnly reg deeper N := by
  refine ⟨?_, ?_, ?_, ?_, ?_, ?_⟩
  · intro name entry f hfind hf
    obtain ⟨hhandler, hast, hmodel, -⟩ := hentry name entry hfind
    rw [hhandler, hast, hmodel] at hf
    rcases hf with hf | hf <;> cases hf
  · intro name entry f hfind hf
    obtain ⟨hhandler, -, hmodel, -⟩ := hentry name entry hfind
    rw [hhandler, hmodel] at hf
    rcases hf with hf | hf <;> cases hf
  · intro target capability hselect
    rw [hcapability] at hselect
    cases hselect
  · intro resolver hsome
    rw [hresolver] at hsome
    cases hsome
  · intro name entry hfind hdefined
    obtain ⟨-, -, -, hbody, hreturn⟩ := hentry name entry hfind
    rw [hbody, hreturn] at hdefined
    cases hdefined
  · intro name entry hfind T P hunkept values
    obtain ⟨-, -, -, -, hreturn⟩ := hentry name entry hfind
    rw [hreturn]
    exact .inOverlay _ fun n => .pure _

end
end Cxpr.Eval
