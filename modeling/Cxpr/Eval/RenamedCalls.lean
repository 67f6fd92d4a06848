import Cxpr.Eval.Renamed

/-! Calls of renamed functions. A document function is a copy of another when its bodies are that function's bodies, renamed.
    A registry that has such copies, and the host functions under their own names, evaluates renamed expressions alike. -/

namespace Cxpr
open Stateful
variable {D : Type}

structure FuncEntry.Document (entry : FuncEntry D) : Prop where
  astFunc : entry.astFunc = none
  astFuncHandler : entry.astFuncHandler = none
  structProducer : entry.structProducer = none
  modelProducer : entry.modelProducer = none
  defined : entry.definedBody.isSome = true ∨ entry.definedReturnFields.isEmpty = false

structure FuncEntry.Copy (ρ : String → String) (N : Set String) (L : Set D) (entry entry' : FuncEntry D) : Prop where
  document : entry.Document
  document' : entry'.Document
  returnType : entry'.returnType = entry.returnType
  argTypes : entry'.argTypes = entry.argTypes
  paramNames : entry'.entryParamNames = entry.entryParamNames
  definedParamNames : entry'.definedParamNames = entry.definedParamNames
  definedParamFields : entry'.definedParamFields = entry.definedParamFields
  definedBody : entry'.definedBody = entry.definedBody.map (Ast.mapCalls ρ)
  definedReturnFields : entry'.definedReturnFields = entry.definedReturnFields.map fun p => (p.1, p.2.mapCalls ρ)
  body : ∀ b, entry.definedBody = some b → b.Within N L
  fields : ∀ p ∈ entry.definedReturnFields, p.2.Within N L

/-! ### Registries -/

def AstFunc.Alike (ρ : String → String) (N : Set String) (L : Set D) (f f' : AstFunc D) : Prop :=
  ∀ ast : Ast D, ast.Within N L → ∀ c c', Renamed ρ N L c c' → (f ast c).toOption = (f' (ast.mapCalls ρ) c').toOption

structure FuncEntry.AstCallback (entry : FuncEntry D) (f : AstFunc D) : Prop where
  astFunc : entry.astFunc = some f
  astFuncHandler : entry.astFuncHandler = none
  structProducer : entry.structProducer = none
  modelProducer : entry.modelProducer = none
  definedReturnFields : entry.definedReturnFields = []

inductive FuncEntry.Renames (ρ : String → String) (N : Set String) (L : Set D) (name : String) (entry entry' : FuncEntry D) :
    Prop
  | copy (h : entry.Copy ρ N L entry')
  | callback (hname : ρ name = name) (hsame : entry' = entry) (h : entry.Callback)
  | astCallback (hname : ρ name = name) {f f' : AstFunc D} (h : entry.AstCallback f) (h' : entry'.AstCallback f')
      (hreturn : entry'.returnType = entry.returnType) (htypes : entry'.argTypes = entry.argTypes)
      (hparams : entry'.entryParamNames = entry.entryParamNames) (halike : f.Alike ρ N L f')

/-- No lookback resolvers, or two that answer alike. The index may be a sum of offsets. -/
def ResolversAlike [Double D] (ρ : String → String) (N : Set String) (L : Set D)
    (resolver resolver' : Option (Ast D → Ast D → Context D → Except Error (Option (Value D)))) : Prop :=
  (resolver = none ∧ resolver' = none) ∨
    ∃ r r', resolver = some r ∧ resolver' = some r' ∧ ∀ t i : Ast D, t.Within N L →
      i.Within N L ∨ (∃ n, i = .number (Double.ofNat n)) →
      ∀ c c', Renamed ρ N L c c' → (r t i c).toOption = (r' (t.mapCalls ρ) (i.mapCalls ρ) c').toOption

structure Registry.Renames [Double D] (ρ : String → String) (N : Set String) (L : Set D) (reg reg' : Registry D) : Prop where
  injOn : Set.InjOn ρ N
  literals : Eval.Literals L
  entry : ∀ n ∈ N, ∃ e e', reg.find n = some e ∧ reg'.find (ρ n) = some e' ∧ FuncEntry.Renames ρ N L n e e'
  producer : ∀ n e, reg.find n = some e → e.structProducer = none
  producer' : ∀ n e, reg'.find n = some e → e.structProducer = none
  capability : ∀ t, reg.selectIndexCapability t = .ok none
  capability' : ∀ t, reg'.selectIndexCapability t = .ok none
  resolver : ResolversAlike ρ N L reg.lookbackResolver reg'.lookbackResolver

namespace Eval
variable {ρ : String → String} {N : Set String} {L : Set D}

theorem callBindArgs_of_paramNames {α : Type} {entry entry' : FuncEntry D}
    (h : entry'.entryParamNames = entry.entryParamNames) (args : List α) (argNames : List (Option String)) :
    callBindArgs entry' args argNames = callBindArgs entry args argNames := by
  unfold callBindArgs
  rw [h]

theorem evalReturnFields_map (deeper : Ast D → EvalM D (Value D)) (f : Ast D → Ast D) (fields : List (String × Ast D)) :
    evalReturnFields deeper (fields.map fun p => (p.1, f p.2)) = evalReturnFields (fun a => deeper (f a)) fields := by
  induction fields with
  | nil => rfl
  | cons p fields ih => rw [List.map_cons, evalReturnFields, evalReturnFields, ih]

theorem inlineArgIsStable_mapCalls (a : Ast D) : inlineArgIsStable (a.mapCalls ρ) = inlineArgIsStable a := by
  cases a <;> rfl

theorem any_mapCalls {p : Ast D → Bool} (args : List (Ast D)) (h : ∀ a, p (a.mapCalls ρ) = p a) :
    (args.map (Ast.mapCalls ρ)).any p = args.any p := by
  rw [List.any_map]
  exact congrArg args.any (funext h)

section
variable {entry entry' : FuncEntry D} (hcopy : entry.Copy ρ N L entry') (args : List (Ast D))
include hcopy

theorem canInlineValueArgs_copy :
    canInlineValueArgs entry' (args.map (Ast.mapCalls ρ)) = canInlineValueArgs entry args := by
  unfold canInlineValueArgs
  rw [hcopy.definedReturnFields, hcopy.definedParamFields, List.all_map, List.isEmpty_map]
  exact congrArg _ (congrArg args.all (funext inlineArgIsStable_mapCalls))

theorem canInlineStructArgs_copy {c c' : Context D} (hc : Renamed ρ N L c c') :
    canInlineStructArgs entry' (args.map (Ast.mapCalls ρ)) c' = canInlineStructArgs entry args c := by
  unfold canInlineStructArgs
  rw [hcopy.definedReturnFields, hcopy.definedParamFields, List.isEmpty_map, List.zip_map_right, List.all_map]
  refine congrArg _ (congrArg (List.all _) (funext fun p => ?_))
  obtain ⟨fields, a⟩ := p
  cases a with
  | identifier name =>
    simp only [Function.comp, Prod.map, id, Ast.mapCalls, hc.structOrCached]
  | _ => rfl

theorem overlayDirectField_copy [Double D] {c c' : Context D} (hc : Renamed ρ N L c c') :
    overlayDirectField entry' (args.map (Ast.mapCalls ρ)) c' = overlayDirectField entry args c := by
  unfold overlayDirectField
  rw [hcopy.definedBody]
  simp only [definedArgForName_map hcopy.definedParamNames, hc.structOrCached, hc.get]
  cases entry.definedBody with
  | none => rfl
  | some body =>
    cases body with
    | fieldAccess object field =>
      simp only [Option.map_some, Ast.mapCalls]
      cases definedArgForName entry args object with
      | none => rfl
      | some a => cases a <;> rfl
    | chainAccess path =>
      rcases path with _ | ⟨root, _ | ⟨field, _ | ⟨next, rest⟩⟩⟩
      · rfl
      · rfl
      · simp only [Option.map_some, Ast.mapCalls]
        cases definedArgForName entry args root with
        | none => rfl
        | some a => cases a <;> rfl
      · rfl
    | _ => rfl

end

section
variable [Double D] {deeper deeper' F F' : Ast D → EvalM D (Value D)} {args : List (Ast D)}

omit [Double D] in
theorem evalReturnFields_copy {entry entry' : FuncEntry D} (hcopy : entry.Copy ρ N L entry')
    (hdeeper : ∀ a, a.Within N L → Parallel (Renamed ρ N L) (deeper a) (deeper' (a.mapCalls ρ))) :
    Parallel (Renamed ρ N L) (evalReturnFields deeper entry.definedReturnFields)
      (evalReturnFields deeper' (entry.definedReturnFields.map fun p => (p.1, p.2.mapCalls ρ))) := by
  rw [evalReturnFields_map]
  exact evalReturnFields_renamed fun p hp => hdeeper p.2 (hcopy.fields p hp)

theorem evalDefinedFunction_renamed {entry entry' : FuncEntry D} (hcopy : entry.Copy ρ N L entry')
    (hdeeper : ∀ a, a.Within N L → Parallel (Renamed ρ N L) (deeper a) (deeper' (a.mapCalls ρ)))
    (hargs : ∀ a ∈ args, a.Within N L) (h : ∀ a ∈ args, Parallel (Renamed ρ N L) (F a) (F' a)) :
    Parallel (Renamed ρ N L) (evalDefinedFunction deeper entry (args.map fun a => (a, F a)))
      (evalDefinedFunction deeper' entry' (args.map fun a => (a.mapCalls ρ, F' a))) := by
  have hvalues := evalAll_renamed h
  have hfields : Parallel (Renamed ρ N L) (evalReturnFields deeper entry.definedReturnFields)
      (evalReturnFields deeper' entry'.definedReturnFields) := by
    rw [hcopy.definedReturnFields]
    exact evalReturnFields_copy hcopy hdeeper
  have hrecord : Parallel (Renamed ρ N L)
      (do
        let values ← evalAll (args.map F)
        return Value.struct (← inOverlay (bindArgs entry.definedParamNames values)
          (evalReturnFields deeper entry.definedReturnFields)))
      (do
        let values ← evalAll (args.map F')
        return Value.struct (← inOverlay (bindArgs entry.definedParamNames values)
          (evalReturnFields deeper' entry'.definedReturnFields))) :=
    hvalues.andThen fun values =>
      (inOverlay_renamed (bindArgs_evalMemo _ values) hfields).andThen fun fields => .pure trivial
  have hempty : entry'.definedReturnFields.isEmpty = entry.definedReturnFields.isEmpty := by
    rw [hcopy.definedReturnFields, List.isEmpty_map]
  have hfst : ∀ f : Ast D → Ast D × EvalM D (Value D), (args.map f).map (·.1) = args.map fun a => (f a).1 :=
    fun f => List.map_map
  have hsnd : ∀ f : Ast D → Ast D × EvalM D (Value D), (args.map f).map (·.2) = args.map fun a => (f a).2 :=
    fun f => List.map_map
  unfold evalDefinedFunction
  simp only [hfst, hsnd, List.map_id', List.length_map, hcopy.definedParamNames]
  split
  · exact .throw _ _
  cases hbody : entry.definedBody with
  | none =>
    rw [hcopy.definedBody, hbody]
    have hmap := hcopy.definedReturnFields
    cases hfs : entry.definedReturnFields with
    | nil =>
      rw [hfs] at hmap
      rw [hmap]
      exact .throw _ _
    | cons p rest =>
      rw [hfs] at hmap hrecord
      rw [hmap] at hrecord ⊢
      exact hrecord
  | some body =>
    rw [hcopy.definedBody, hbody]
    have hwithin := hcopy.body body hbody
    have hinline : Parallel (Renamed ρ N L)
        (wrapDefinedError entry.name (deeper (substituteDefinedArgs entry args body)))
        (wrapDefinedError entry'.name (deeper' (substituteDefinedArgs entry' (args.map (Ast.mapCalls ρ)) (body.mapCalls ρ)))) := by
      rw [← mapCalls_substitute hcopy.definedParamNames]
      exact wrapDefinedError_renamed _ _ (hdeeper _ (within_substitute hargs hwithin))
    have hrun := wrapDefinedError_renamed entry.name entry'.name (hdeeper body hwithin)
    have hfresh : Fresh ({} : Frame D) := rfl
    have hoverlay : ∀ {tmp : Frame D}, Fresh tmp → Parallel (Renamed ρ N L)
        (inOverlay tmp (wrapDefinedError entry.name (deeper body)))
        (inOverlay tmp (wrapDefinedError entry'.name (deeper' (body.mapCalls ρ)))) :=
      fun htmp => inOverlay_renamed htmp hrun
    simp only [Option.map_some, hempty, hcopy.definedParamFields]
    rw [canInlineValueArgs_copy hcopy]
    split
    · exact hinline
    split
    · exact hrecord
    split
    · refine Parallel.read fun c c' hc => ?_
      rw [overlayDirectField_copy hcopy args hc, any_mapCalls]
      · simp only [hc.get]
        split
        · cases overlayDirectField entry args c with
          | some v => exact .pure trivial
          | none => exact (bindOverlayArgs_renamed _ h hfresh).bind fun tmp htmp => hoverlay htmp
        · exact hvalues.andThen fun values => hoverlay (bindArgs_evalMemo _ values)
      · intro a
        cases a <;> rfl
    · refine Parallel.read fun c c' hc => ?_
      rw [overlayDirectField_copy hcopy args hc, canInlineStructArgs_copy hcopy args hc]
      cases overlayDirectField entry args c with
      | some v => exact .pure trivial
      | none =>
        dsimp only
        split
        · exact hinline
        · exact (bindStructArgs_renamed _ _ h hfresh).bind fun tmp htmp => hoverlay htmp

end

section
variable [Double D]

def contextField (c : Context D) (object field : String) : Except Error (Value D) :=
  match c.getField object field, c.get (Ast.fullKey [object, field]) with
  | some v, _ => .ok v
  | none, some d => .ok (.number d)
  | none, none => .error ⟨.unknownIdentifier, unknownMessage "Unknown field access" (Ast.fullKey [object, field])⟩

def fieldValue (c : Context D) (object field : String) : Except Error (Value D) :=
  match expressionScope c with
  | none => contextField c object field
  | some scope =>
    match scope (Ast.fullKey [object, field]), scope object with
    | some v, _ => .ok v
    | none, some (.struct s) => structFieldValue s field
    | none, some _ => .error ⟨.unknownIdentifier, "Expression-scope chain has no struct prefix"⟩
    | none, none => contextField c object field

variable {reg : Registry D} {i t : Ast D} {target index : EvalM D (Value D)}

theorem evalFieldAccess_eq (h : ∀ n e, reg.find n = some e → e.structProducer = none)
    (object field : String) :
    evalFieldAccess reg object field = (get >>= fun c => liftM (fieldValue c object field) : EvalM D (Value D)) := by
  funext c
  unfold evalFieldAccess
  refine (bind_apply_ok rfl).trans ?_
  show _ = (liftM (fieldValue c object field) : EvalM D (Value D)) c
  have hcontext : ∀ entry, reg.find object = some entry → entry.structProducer.isSome = false := by
    intro entry hentry
    rw [h object entry hentry]
    rfl
  unfold fieldValue contextField
  rcases hfind : reg.find object with _ | entry
  -- an entry without a producer is like none
  on_goal 2 => simp only [hcontext entry hfind]
  all_goals
    cases expressionScope c with
    | none => cases c.getField object field <;> cases c.get (Ast.fullKey [object, field]) <;> rfl
    | some scope =>
      dsimp only
      cases scope (Ast.fullKey [object, field]) with
      | some v => rfl
      | none =>
        cases scope object with
        | some v => cases v <;> rfl
        | none => cases c.getField object field <;> cases c.get (Ast.fullKey [object, field]) <;> rfl

section
variable {reg reg' : Registry D} (hreg : Registry.Renames ρ N L reg reg')
include hreg

theorem evalFieldAccess_renamed (object field : String) :
    Parallel (Renamed ρ N L) (evalFieldAccess reg object field) (evalFieldAccess reg' object field) := by
  rw [evalFieldAccess_eq hreg.producer, evalFieldAccess_eq hreg.producer']
  refine Parallel.read fun c c' hc => ?_
  have hvalue : fieldValue c' object field = fieldValue c object field := by
    unfold fieldValue contextField
    rw [hc.expressionScope, hc.getField, hc.get]
  rw [hvalue]
  exact .lift rfl fun _ _ => trivial

end

/-! ### Indexes -/

theorem lookbackLiteralOffset_mapCalls (i : Ast D) :
    Ir.lookbackLiteralOffset (i.mapCalls ρ) = Ir.lookbackLiteralOffset i := by
  cases i <;> rfl

theorem flattenLookback_mapCalls : ∀ (t : Ast D) (offset : Nat), flattenLookback offset (t.mapCalls ρ) =
    ((flattenLookback offset t).1, (flattenLookback offset t).2.1.mapCalls ρ, (flattenLookback offset t).2.2)
  | .index target i, offset => by
    rw [Ast.mapCalls, flattenLookback, flattenLookback, lookbackLiteralOffset_mapCalls]
    cases (Ir.lookbackLiteralOffset i).bind (Ir.lookbackAddUnsigned offset) with
    | none => rfl
    | some summed => exact flattenLookback_mapCalls target summed
  | .number _, _ | .int64 _, _ | .bool _, _ | .string _, _ | .array _, _ | .record _ _, _ | .identifier _, _ | .param _, _
  | .fieldAccess _ _, _ | .fieldOf _ _, _ | .chainAccess _, _ | .producerAccess _ _ _ _, _ | .binary _ _ _, _ | .unary _ _, _
  | .call _ _ _, _ | .ternary _ _ _, _ => rfl

theorem within_flattenLookback : ∀ {t : Ast D} (offset : Nat), t.Within N L → (flattenLookback offset t).2.1.Within N L
  | .index target i, offset, h => by
    rw [flattenLookback]
    cases (Ir.lookbackLiteralOffset i).bind (Ir.lookbackAddUnsigned offset) with
    | none => exact h
    | some summed => exact within_flattenLookback summed h.1
  | .number _, _, h | .int64 _, _, h | .bool _, _, h | .string _, _, h | .array _, _, h | .record _ _, _, h
  | .identifier _, _, h | .param _, _, h | .fieldAccess _ _, _, h | .fieldOf _ _, _, h | .chainAccess _, _, h
  | .producerAccess _ _ _ _, _, h | .binary _ _ _, _, h | .unary _ _, _, h | .call _ _ _, _, h | .ternary _ _ _, _, h => h

def lookbackMoved (t i : Ast D) : Bool :=
  (Ir.lookbackLiteralOffset i).isSome && isIndex t &&
    (match t with
      | .index _ i' => ((Ir.lookbackLiteralOffset i').bind
          (Ir.lookbackAddUnsigned ((Ir.lookbackLiteralOffset i).getD 0))).isSome
      | _ => false)

def resolverTarget (t i : Ast D) : Ast D := if (lookbackParts t i).2.2 then (lookbackParts t i).2.1 else t

def resolverIndex (t i : Ast D) : Ast D :=
  if lookbackMoved t i && (lookbackParts t i).2.2 then .number (Double.ofNat (lookbackParts t i).1) else i

def resolveIndex (resolver : Ast D → Ast D → Context D → Except Error (Option (Value D))) (t i : Ast D)
    (target index : EvalM D (Value D)) : EvalM D (Value D) := do
  let value ← tryCatch (some <$> target) fun _ => pure none
  match value with
  | some (.array values) => arrayIndex values index
  | _ =>
    match ← (resolver (resolverTarget t i) (resolverIndex t i) (← get) : Except Error _) with
    | some v => return v
    | none => evalError .typeMismatch "Index target is not indexable"

theorem evalIndex_stored {c : Context D} {name : String}
    {values : List (Value D)} (h : c.getTyped name = some (.array values)) :
    evalIndex reg (.identifier name) i target index c = arrayIndex values index c := by
  unfold evalIndex
  refine (bind_apply_ok rfl).trans ?_
  simp only [h]

theorem evalIndex_resolver {c : Context D}
    {resolver : Ast D → Ast D → Context D → Except Error (Option (Value D))} (hresolver : reg.lookbackResolver = some resolver)
    (hcapability : ∀ t, reg.selectIndexCapability t = .ok none)
    (harray : ∀ name values, t = .identifier name → c.getTyped name ≠ some (.array values)) :
    evalIndex reg t i target index c = resolveIndex resolver t i target index c := by
  have hstored : ∀ {stored : Option (Value D)} {k : EvalM D (Value D)}, (∀ values, stored ≠ some (.array values)) →
      (match stored with
        | some (.array values) => arrayIndex values index
        | _ => k) = k := by
    intro stored k h
    split
    · exact absurd rfl (h _)
    · rfl
  unfold evalIndex
  refine (Stateful.bind_apply_ok rfl).trans ?_
  rw [hresolver]
  refine (congrFun (hstored ?_) c).trans ?_
  · intro values hvalues
    split at hvalues
    · exact harray _ values rfl hvalues
    · cases hvalues
  · -- no capability is found before or after the resolver
    simp only [hcapability, lift_ok_bind, pure_bind, ite_self]
    rfl

theorem lookbackParts_mapCalls (t i : Ast D) : lookbackParts (t.mapCalls ρ) (i.mapCalls ρ) =
    ((lookbackParts t i).1, (lookbackParts t i).2.1.mapCalls ρ, (lookbackParts t i).2.2) := by
  unfold lookbackParts
  rw [lookbackLiteralOffset_mapCalls]
  cases Ir.lookbackLiteralOffset i with
  | none => rfl
  | some offset => exact flattenLookback_mapCalls t offset

theorem lookbackMoved_mapCalls (t i : Ast D) : lookbackMoved (t.mapCalls ρ) (i.mapCalls ρ) = lookbackMoved t i := by
  unfold lookbackMoved
  rw [lookbackLiteralOffset_mapCalls]
  cases t with
  | index target i' => simp only [Ast.mapCalls, isIndex, lookbackLiteralOffset_mapCalls]
  | _ => rfl

theorem resolverTarget_mapCalls (t i : Ast D) :
    resolverTarget (t.mapCalls ρ) (i.mapCalls ρ) = (resolverTarget t i).mapCalls ρ := by
  unfold resolverTarget
  rw [lookbackParts_mapCalls]
  split <;> rfl

theorem resolverIndex_mapCalls (t i : Ast D) :
    resolverIndex (t.mapCalls ρ) (i.mapCalls ρ) = (resolverIndex t i).mapCalls ρ := by
  unfold resolverIndex
  rw [lookbackParts_mapCalls, lookbackMoved_mapCalls]
  split <;> rfl

theorem within_resolverTarget (ht : t.Within N L) (i : Ast D) : (resolverTarget t i).Within N L := by
  unfold resolverTarget
  split
  · unfold lookbackParts
    split
    · exact within_flattenLookback _ ht
    · exact ht
  · exact ht

theorem within_resolverIndex (hi : i.Within N L) (t : Ast D) :
    (resolverIndex t i).Within N L ∨ ∃ n, resolverIndex t i = .number (Double.ofNat n) := by
  unfold resolverIndex
  split
  · exact .inr ⟨_, rfl⟩
  · exact .inl hi

theorem elementOf_renamed {index' : EvalM D (Value D)} (h : Parallel (Renamed ρ N L) index index') (v : Value D) :
    Parallel (Renamed ρ N L) (elementOf index v) (elementOf index' v) := by
  cases v with
  | array values => exact arrayIndex_renamed h
  | _ => exact .throw _ _

theorem evalIndex_renamed {reg' : Registry D} (hreg : Registry.Renames ρ N L reg reg') (ht : t.Within N L)
    (hi : i.Within N L) {target' index' : EvalM D (Value D)} (htarget : Parallel (Renamed ρ N L) target target')
    (hindex : Parallel (Renamed ρ N L) index index') :
    Parallel (Renamed ρ N L) (evalIndex reg t i target index)
      (evalIndex reg' (t.mapCalls ρ) (i.mapCalls ρ) target' index') := by
  intro c c' hc
  by_cases hstored : ∃ name values, t = .identifier name ∧ c.getTyped name = some (.array values)
  · obtain ⟨name, values, rfl, hvalues⟩ := hstored
    rw [evalIndex_stored hvalues, Ast.mapCalls, evalIndex_stored ((hc.getTyped name).trans hvalues)]
    exact arrayIndex_renamed hindex c c' hc
  · have harray : ∀ name values, t = .identifier name → c.getTyped name ≠ some (.array values) :=
      fun name values hname hvalues => hstored ⟨name, values, hname, hvalues⟩
    have harray' : ∀ name values, t.mapCalls ρ = .identifier name → c'.getTyped name ≠ some (.array values) := by
      intro name values hname
      rw [hc.getTyped]
      refine harray name values ?_
      cases t <;> first | exact hname | cases hname
    rcases hreg.resolver with ⟨hnone, hnone'⟩ | ⟨r, r', hsome, hsome', halike⟩
    · rw [evalIndex_apply hnone harray, evalIndex_apply hnone' harray', hreg.capability, hreg.capability']
      exact (htarget.andThen fun v => elementOf_renamed hindex v) c c' hc
    · rw [evalIndex_resolver hsome hreg.capability harray, evalIndex_resolver hsome' hreg.capability' harray']
      refine (htarget.attempt.andThen fun value => ?_) c c' hc
      have hresolved : Parallel (Renamed ρ N L)
          (do
            match ← (r (resolverTarget t i) (resolverIndex t i) (← get) : Except Error _) with
            | some v => return v
            | none => evalError .typeMismatch "Index target is not indexable" : EvalM D (Value D))
          (do
            match ← (r' (resolverTarget (t.mapCalls ρ) (i.mapCalls ρ)) (resolverIndex (t.mapCalls ρ) (i.mapCalls ρ)) (← get) :
              Except Error _) with
            | some v => return v
            | none => evalError .typeMismatch "Index target is not indexable" : EvalM D (Value D)) := by
        refine Parallel.read fun c c' hc => ?_
        rw [resolverTarget_mapCalls, resolverIndex_mapCalls]
        refine (Parallel.lift (halike _ _ (within_resolverTarget ht i) (within_resolverIndex hi t) c c' hc)
          fun _ _ => trivial).andThen fun resolved => ?_
        cases resolved with
        | some v => exact .pure trivial
        | none => exact .throw _ _
      cases value with
      | none => exact hresolved
      | some v =>
        cases v with
        | array values => exact arrayIndex_renamed hindex
        | _ => exact hresolved

end

theorem memoable_renamed {name : String} {entry entry' : FuncEntry D} (h : FuncEntry.Renames ρ N L name entry entry') :
    memoable entry' = memoable entry := by
  cases h with
  | copy h =>
    unfold memoable
    rw [h.document.astFunc, h.document.astFuncHandler, h.document.structProducer, h.document'.astFunc,
      h.document'.astFuncHandler, h.document'.structProducer]
    rfl
  | callback hname hsame h => rw [hsame]
  | astCallback hname h h' _ _ _ _ =>
    unfold memoable
    rw [h.astFunc, h.astFuncHandler, h'.astFunc, h'.astFuncHandler]
    rfl

section
variable [Double D] {reg reg' : Registry D} (hreg : Registry.Renames ρ N L reg reg')
include hreg

theorem memoized_renamed {name : String} (hname : name ∈ N) {ast : Ast D} (hast : ast.Within N L)
    {act act' : EvalM D (Value D)} (h : Parallel (Renamed ρ N L) act act') :
    Parallel (Renamed ρ N L) (memoized reg name ast act) (memoized reg' (ρ name) (ast.mapCalls ρ) act') := by
  obtain ⟨entry, entry', hfind, hfind', hentry⟩ := hreg.entry name hname
  unfold memoized
  rw [hfind, hfind', Option.any_some, Option.any_some, memoable_renamed hentry]
  split
  · refine (memoGet_renamed hreg.literals hreg.injOn hast).andThen fun found => ?_
    cases found with
    | some v => exact .pure trivial
    | none => exact h.andThen fun v => (memoSet_renamed hast v).andThen fun _ => .pure trivial
  · exact h

end

section
variable [Double D] {reg reg' : Registry D} {deeper deeper' : Ast D → EvalM D (Value D)} {args : List (Ast D)}

variable {entry : FuncEntry D} {name : String}

theorem callBindArgs_mapCalls {entry' : FuncEntry D} (hparams : entry'.entryParamNames = entry.entryParamNames)
    (argNames : List (Option String)) :
    callBindArgs entry' ((Ast.mapCallsList ρ args).zip (evalActs reg deeper (Ast.mapCallsList ρ args))) argNames =
      (callBindArgs entry args argNames).map (List.map fun a => (a.mapCalls ρ, evalNode reg deeper (a.mapCalls ρ))) := by
  rw [callBindArgs_zip_evalActs, callBindArgs_of_paramNames hparams, Ast.mapCallsList_eq_map, callBindArgs_map]
  cases callBindArgs entry args argNames with
  | error e => rfl
  | ok ordered =>
    simp only [Except.map, List.map_map]
    rfl

theorem evalCall_document (hfind : reg.find name = some entry) (hentry : entry.Document)
    (argNames : List (Option String)) :
    evalCall reg deeper name args argNames (evalActs reg deeper args) =
      ((liftM (callBindArgs entry (args.zip (evalActs reg deeper args)) argNames) : EvalM D _) >>= fun ordered =>
        evalDefinedFunction deeper entry ordered) := by
  have hdefined : (entry.definedBody.isSome || !entry.definedReturnFields.isEmpty) = true := by
    rcases hentry.defined with h | h <;> rw [h]
    · rfl
    · exact Bool.or_true _
  funext c
  unfold evalCall
  refine (Stateful.bind_apply_ok rfl).trans ?_
  rw [hfind]
  simp only [hentry.astFunc, hentry.astFuncHandler, hentry.structProducer, hentry.modelProducer, hdefined]
  rfl

omit [Double D] in
theorem callNative_renamed (hfind : reg.find name = some entry)
    (hfind' : reg'.find name = some entry) (argc : Nat) {F F' : Ast D → EvalM D (Value D)}
    (h : ∀ a ∈ args, Parallel (Renamed ρ N L) (F a) (F' a)) :
    Parallel (Renamed ρ N L) (callNative reg entry name argc (args.map F)) (callNative reg' entry name argc (args.map F')) := by
  have hcallback : Parallel (Renamed ρ N L)
      (if maxCallArgs < argc then evalError .wrongArity "Too many function arguments"
        else do registryCallTyped reg name (← evalAll (args.map F)))
      (if maxCallArgs < argc then evalError .wrongArity "Too many function arguments"
        else do registryCallTyped reg' name (← evalAll (args.map F'))) := by
    have htyped : registryCallTyped reg' name = registryCallTyped reg name := by
      funext values
      unfold registryCallTyped
      rw [hfind, hfind']
    rw [htyped]
    split
    · exact .throw _ _
    · exact (evalAll_renamed h).andThen fun values => .lift rfl fun _ _ => trivial
  have hscalar : ∀ a ∈ args, Parallel (Renamed ρ N L) (scalarArg (F a)) (scalarArg (F' a)) :=
    fun a ha => (h a ha).andThen fun v => .lift rfl fun _ _ => trivial
  unfold callNative
  cases entry.native with
  | none => exact hcallback
  | nullary v =>
    rcases args with _ | ⟨a, rest⟩
    · exact .pure trivial
    · exact hcallback
  | unary f =>
    rcases args with _ | ⟨a, _ | ⟨b, rest⟩⟩
    · exact hcallback
    · exact (hscalar a (by simp)).andThen fun x => .pure trivial
    · exact hcallback
  | binary f =>
    rcases args with _ | ⟨a, _ | ⟨b, _ | ⟨c, rest⟩⟩⟩
    · exact hcallback
    · exact hcallback
    · exact (hscalar a (by simp)).andThen fun x => (hscalar b (by simp)).andThen fun y => .pure trivial
    · exact hcallback
  | ternary f =>
    rcases args with _ | ⟨a, _ | ⟨b, _ | ⟨c, _ | ⟨d, rest⟩⟩⟩⟩
    · exact hcallback
    · exact hcallback
    · exact hcallback
    · exact (hscalar a (by simp)).andThen fun x => (hscalar b (by simp)).andThen fun y =>
        (hscalar c (by simp)).andThen fun z => .pure trivial
    · exact hcallback

omit [Double D] in
theorem callHost_renamed (hfind : reg.find name = some entry)
    (hfind' : reg'.find name = some entry) (argc : Nat) {F F' : Ast D → EvalM D (Value D)}
    (h : ∀ a ∈ args, Parallel (Renamed ρ N L) (F a) (F' a)) :
    Parallel (Renamed ρ N L) (callHost reg entry name argc (args.map F)) (callHost reg' entry name argc (args.map F')) := by
  have hcall : Parallel (Renamed ρ N L)
      (if argc < entry.minArgs || entry.maxArgs < argc then evalError .wrongArity "Wrong number of arguments"
        else callNative reg entry name argc (args.map F))
      (if argc < entry.minArgs || entry.maxArgs < argc then evalError .wrongArity "Wrong number of arguments"
        else callNative reg' entry name argc (args.map F')) := by
    split
    · exact .throw _ _
    · exact callNative_renamed hfind hfind' argc h
  unfold callHost
  cases name == "if" with
  | false => exact hcall
  | true =>
    rcases args with _ | ⟨c, _ | ⟨t, _ | ⟨e, _ | ⟨d, rest⟩⟩⟩⟩
    · exact hcall
    · exact hcall
    · exact hcall
    · exact evalTernary_renamed (h c (by simp)) (h t (by simp)) (h e (by simp))
    · exact hcall

section
variable (hreg : Registry.Renames ρ N L reg reg')
  (hdeeper : ∀ a, a.Within N L → Parallel (Renamed ρ N L) (deeper a) (deeper' (a.mapCalls ρ)))
  (h : ∀ a ∈ args, Parallel (Renamed ρ N L) (evalNode reg deeper a) (evalNode reg' deeper' (a.mapCalls ρ)))
include hreg hdeeper h

theorem evalCall_renamed (hargs : ∀ a ∈ args, a.Within N L) {name : String} (hname : name ∈ N) (argNames : List (Option String)) :
    Parallel (Renamed ρ N L) (evalCall reg deeper name args argNames (evalActs reg deeper args))
      (evalCall reg' deeper' (ρ name) (Ast.mapCallsList ρ args) argNames (evalActs reg' deeper' (Ast.mapCallsList ρ args))) := by
  obtain ⟨entry, entry', hfind, hfind', hentry⟩ := hreg.entry name hname
  cases hentry with
  | copy hcopy =>
    rw [evalCall_document hfind hcopy.document, evalCall_document hfind' hcopy.document', callBindArgs_zip_evalActs,
      callBindArgs_mapCalls hcopy.paramNames]
    cases hbind : callBindArgs entry args argNames with
    | error e => exact fun _ _ _ => .error e e
    | ok ordered =>
      have hmem := (callBindArgs_mem hbind).2
      exact evalDefinedFunction_renamed hcopy hdeeper (fun a ha => hargs a (hmem a ha)) fun a ha => h a (hmem a ha)
  | callback hsame heq hcallback =>
    subst heq
    rw [hsame] at hfind' ⊢
    rw [evalCall_callback hfind hcallback, evalCall_callback hfind' hcallback, Ast.mapCallsList_eq_map, callBindArgs_map]
    cases hbind : callBindArgs entry' args argNames with
    | error e => exact fun _ _ _ => .error e e
    | ok ordered =>
      have hmem := (callBindArgs_mem hbind).2
      have hhost : Parallel (Renamed ρ N L) (callHost reg entry' name args.length (ordered.map (evalNode reg deeper)))
          (callHost reg' entry' name args.length (ordered.map fun a => evalNode reg' deeper' (a.mapCalls ρ))) :=
        callHost_renamed hfind hfind' args.length fun a ha => h a (hmem a ha)
      simp only [Except.map, lift_ok_bind, List.map_map, List.length_map]
      exact hhost
  | astCallback hsame hcallback hcallback' _ _ _ halike =>
    unfold evalCall
    refine Parallel.read fun c c' hc => ?_
    rw [hfind, hfind']
    simp only [hcallback.astFunc, hcallback.astFuncHandler, hcallback'.astFunc, hcallback'.astFuncHandler]
    exact .lift (halike (.call name args argNames) ⟨hname, Ast.withinList_iff.mpr hargs⟩ c c' hc) fun _ _ => trivial

theorem evalProducerAccess_renamed {name : String} (hname : name ∈ N) (argNames : List (Option String)) (field : String) :
    Parallel (Renamed ρ N L) (evalProducerAccess reg deeper name args argNames field (evalActs reg deeper args))
      (evalProducerAccess reg' deeper' (ρ name) (Ast.mapCallsList ρ args) argNames field
        (evalActs reg' deeper' (Ast.mapCallsList ρ args))) := by
  obtain ⟨entry, entry', hfind, hfind', hentry⟩ := hreg.entry name hname
  unfold evalProducerAccess
  rw [hfind, hfind']
  cases hentry with
  | copy hcopy =>
    simp only [hcopy.document.structProducer, hcopy.document.modelProducer, hcopy.document'.structProducer,
      hcopy.document'.modelProducer, hcopy.definedReturnFields, List.isEmpty_map, hcopy.definedParamNames]
    rw [callBindArgs_zip_evalActs, callBindArgs_mapCalls hcopy.paramNames]
    cases hempty : entry.definedReturnFields.isEmpty with
    | true => exact .throw _ _
    | false =>
      cases hbind : callBindArgs entry args argNames with
      | error e => exact fun _ _ _ => .error e e
      | ok ordered =>
        have hmem := (callBindArgs_mem hbind).2
        have hvalues := evalAll_renamed fun a ha => h a (hmem a ha)
        simp only [Except.map, lift_ok_bind, List.map_map]
        exact hvalues.andThen fun values =>
          (inOverlay_renamed (bindArgs_evalMemo _ values) (evalReturnFields_copy hcopy hdeeper)).andThen fun fields =>
            .lift rfl fun _ _ => trivial
  | callback hsame heq hcallback =>
    subst heq
    simp only [hcallback.structProducer, hcallback.modelProducer, hcallback.definedReturnFields]
    exact .throw _ _
  | astCallback hsame hcallback hcallback' _ _ _ halike =>
    simp only [hcallback.structProducer, hcallback.modelProducer, hcallback.definedReturnFields, hcallback'.structProducer,
      hcallback'.modelProducer, hcallback'.definedReturnFields]
    exact .throw _ _

end

end

end Eval
end Cxpr
