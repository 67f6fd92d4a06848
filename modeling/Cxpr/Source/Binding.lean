import Cxpr.Lib.Representatives
import Cxpr.Source.Plan

/-! The binding of the sources in an expression (`cxpr_plan_bind_sources`): the leaves of the plans it parses on its way
    through the expression are bound once for each requirement id. -/

namespace Cxpr.Source
variable {D σ : Type} [Double D]

/-! ### Bindings -/

structure Requirement where
  requirementId : UInt64
  providerName : String
  sourceName : String
  everyDurationNs : Nat
  everyCanonical : String
  valueType : ValueType
  sourceFlags : UInt32
  materialization : Materialization

/-- One entry of `cxpr_source_plan_bindings`, with its handle. -/
structure Entry where
  requirement : Requirement
  handle : UInt64

structure Call (D : Type) where
  node : NodeInfo D
  args : List D
  handle : UInt64

/-- The bindings, the callback's own state, and the calls the callback got so far. -/
structure Progress (D σ : Type) where
  bindings : List Entry
  userdata : σ
  calls : List (Call D)

/-- `cxpr_plan_config`, without the resolver. -/
structure PlanConfig (D σ : Type) where
  bind : Option (NodeInfo D → List D → σ → Option (UInt64 × σ))
  bindRequirement : Option (Requirement → σ → Option (UInt64 × σ))

/-- `cxpr_source_plan_bindings_contains` -/
def bindingsContains (bindings : List Entry) (requirementId : UInt64) : Bool :=
  bindings.any (·.requirement.requirementId == requirementId)

/-- `cxpr_source_plan_bindings_append` -/
def bindingsAppend (bindings : List Entry) (requirement : Requirement) (handle : UInt64) : List Entry :=
  if bindingsContains bindings requirement.requirementId then bindings else bindings ++ [⟨requirement, handle⟩]

def requirementOf (p : Provider) (info : NodeInfo D) : Requirement :=
  let spec := p.sourceSpecFind info.name
  { requirementId := info.requirementId
    providerName := p.name
    sourceName := info.name
    everyDurationNs := info.intervalDurationNs
    everyCanonical := info.intervalValue.getD ""
    valueType := info.valueType
    sourceFlags := (spec.map SourceSpec.flags).getD 0
    materialization := (spec.map SourceSpec.materialization).getD .unspecified }

/-- `cxpr_source_plan_collect_node_args` -/
def collectNodeArgs (info : NodeInfo D) (planArgs : List D) : Option (List D) := info.argSlots.mapM (planArgs[·]?)

/-- `cxpr_source_plan_bind_leaf_nodes`. -/
def bindLeaf (p : Provider) (config : PlanConfig D σ) (info : NodeInfo D) (planArgs : List D) (w : Progress D σ) :
    Option (Progress D σ) :=
  if bindingsContains w.bindings info.requirementId then some w
  else
    let requirement := requirementOf p info
    match config.bindRequirement with
    | some bindRequirement => do
      let (handle, userdata) ← bindRequirement requirement w.userdata
      some { w with bindings := bindingsAppend w.bindings requirement handle, userdata }
    | none => do
      let bind ← config.bind
      let args ← collectNodeArgs info planArgs
      let (handle, userdata) ← bind info args w.userdata
      some ⟨bindingsAppend w.bindings requirement handle, userdata, w.calls ++ [⟨info, args, handle⟩]⟩

section
-- What `cxpr_eval_ast_number` gives for an expression in the context and with the registry of the call.
variable (number : Ast D → Option D)

/-- `cxpr_eval_source_plan_bound_args` -/
def evalBoundArgs (plan : Plan D) : Option (List D) := plan.boundArgs.mapM fun arg => arg.bind number

/-- `cxpr_source_plan_bind_parsed_plan` -/
def bindParsedPlan (p : Provider) (config : PlanConfig D σ) (w : Progress D σ) (plan : Plan D) : Option (Progress D σ) := do
  let planArgs ← evalBoundArgs number plan
  bindLeaf p config plan.root.leafInfo planArgs w

/-- `cxpr_source_plan_should_parse_at_node` -/
def shouldParseAtNode : Ast D → Bool
  | .identifier _ | .call .. | .producerAccess .. | .index _ _ => true
  | _ => false

def planAt (p : Provider) (ast : Ast D) : Option (Plan D) :=
  if shouldParseAtNode ast then parseProviderSourcePlan p ast else none

mutual

def bindSourcesWalk (p : Provider) (config : PlanConfig D σ) : Ast D → Progress D σ → Option (Progress D σ)
  | .identifier name, w =>
    match planAt p (.identifier name) with
    | some plan => bindParsedPlan number p config w plan
    | none => some w
  | .call name args argNames, w =>
    match planAt p (.call name args argNames) with
    | some plan => bindParsedPlan number p config w plan
    | none => bindSourcesWalkAll p config args w
  | .producerAccess name args argNames field, w =>
    match planAt p (.producerAccess name args argNames field) with
    | some plan => bindParsedPlan number p config w plan
    | none => bindSourcesWalkAll p config args w
  | .index target i, w =>
    match planAt p (.index target i) with
    | some plan => bindParsedPlan number p config w plan
    | none => (bindSourcesWalk p config target w).bind (bindSourcesWalk p config i)
  | .binary _ l r, w => (bindSourcesWalk p config l w).bind (bindSourcesWalk p config r)
  | .unary _ a, w => bindSourcesWalk p config a w
  | .ternary c t e, w =>
    ((bindSourcesWalk p config c w).bind (bindSourcesWalk p config t)).bind (bindSourcesWalk p config e)
  | _, w => some w

def bindSourcesWalkAll (p : Provider) (config : PlanConfig D σ) : List (Ast D) → Progress D σ → Option (Progress D σ)
  | [], w => some w
  | a :: as, w => (bindSourcesWalk p config a w).bind (bindSourcesWalkAll p config as)

end

def planBindSources (p : Provider) (config : PlanConfig D σ) (userdata : σ) (expr : Ast D) : Option (Progress D σ) :=
  if config.bind.isNone && config.bindRequirement.isNone then none
  else bindSourcesWalk number p config expr ⟨[], userdata, []⟩

/-! ### The leaves of an expression -/

/-- A source leaf as the host sees it: its name and scope and the values of its arguments. -/
structure Leaf (D : Type) where
  kind : PlanKind
  name : String
  fieldName : Option String
  scopeValue : Option String
  intervalDurationNs : Nat
  values : List D
  deriving DecidableEq

structure Occurrence (D : Type) where
  requirementId : UInt64
  leaf : Leaf D
  deriving DecidableEq

def leafOf (info : NodeInfo D) (values : List D) : Leaf D :=
  ⟨info.kind, info.name, info.fieldName, info.scopeValue, info.intervalDurationNs, values⟩

def Call.occurrence (c : Call D) : Occurrence D := ⟨c.node.requirementId, leafOf c.node c.args⟩

def Plan.occurrence (plan : Plan D) : Option (Occurrence D) := do
  let planArgs ← evalBoundArgs number plan
  let args ← collectNodeArgs plan.root.leafInfo planArgs
  some ⟨plan.root.leafInfo.requirementId, leafOf plan.root.leafInfo args⟩

def children : Ast D → List (Ast D)
  | .array elements => elements
  | .record _ fieldValues => fieldValues
  | .fieldOf base _ => [base]
  | .producerAccess _ args _ _ | .call _ args _ => args
  | .binary _ l r => [l, r]
  | .unary _ a => [a]
  | .index target i => [target, i]
  | .ternary c t e => [c, t, e]
  | .number _ | .int64 _ | .bool _ | .string _ | .identifier _ | .param _ | .fieldAccess _ _ | .chainAccess _ => []

/-- A source leaf occurs in an expression: as the leaf of a plan, in an argument of a plan, or in a part of an expression
    that is not a plan. -/
inductive Occurs (p : Provider) : Ast D → Occurrence D → Prop
  | leaf {ast : Ast D} {plan : Plan D} {o : Occurrence D} :
    planAt p ast = some plan → plan.occurrence number = some o → Occurs p ast o
  | arg {ast arg : Ast D} {plan : Plan D} {o : Occurrence D} :
    planAt p ast = some plan → some arg ∈ plan.boundArgs → Occurs p arg o → Occurs p ast o
  | child {ast child : Ast D} {o : Occurrence D} :
    planAt p ast = none → child ∈ children ast → Occurs p child o → Occurs p ast o

mutual

def walkedPlans (p : Provider) : Ast D → List (Plan D)
  | .identifier name => (planAt p (.identifier name)).toList
  | .call name args argNames =>
    match planAt p (.call name args argNames) with
    | some plan => [plan]
    | none => walkedPlansAll p args
  | .producerAccess name args argNames field =>
    match planAt p (.producerAccess name args argNames field) with
    | some plan => [plan]
    | none => walkedPlansAll p args
  | .index target i =>
    match planAt p (.index target i) with
    | some plan => [plan]
    | none => walkedPlans p target ++ walkedPlans p i
  | .binary _ l r => walkedPlans p l ++ walkedPlans p r
  | .unary _ a => walkedPlans p a
  | .ternary c t e => walkedPlans p c ++ walkedPlans p t ++ walkedPlans p e
  | _ => []

def walkedPlansAll (p : Provider) : List (Ast D) → List (Plan D)
  | [] => []
  | a :: as => walkedPlans p a ++ walkedPlansAll p as

end

def walked (p : Provider) (expr : Ast D) : List (Occurrence D) :=
  (walkedPlans p expr).filterMap fun plan => plan.occurrence number

/-- Every leaf of the expression was passed to the callback, the handle it gave is the one under the leaf's id, and no
    leaf got two handles. -/
structure BoundCompletely (p : Provider) (expr : Ast D) (w : Progress D σ) : Prop where
  passed : ∀ o, Occurs number p expr o → ∃ c ∈ w.calls, c.occurrence = o
  handles : w.bindings.map (fun b => (b.requirement.requirementId, b.handle)) =
    w.calls.map fun c => (c.node.requirementId, c.handle)
  separate : (w.calls.map fun c => c.occurrence.leaf).Nodup

/-- The ids tell apart the leaves that the walk comes to, and no leaf stands only where the walk does not come. -/
structure Distinguished (p : Provider) (expr : Ast D) : Prop where
  reached : ∀ o, Occurs number p expr o → o ∈ walked number p expr
  ids : ∀ o ∈ walked number p expr, ∀ o' ∈ walked number p expr, o.requirementId = o'.requirementId ↔ o.leaf = o'.leaf

end

section
variable {number : Ast D → Option D} {p : Provider} {config : PlanConfig D σ}

mutual

theorem bindSourcesWalk_eq : ∀ (ast : Ast D) (w : Progress D σ),
    bindSourcesWalk number p config ast w = (walkedPlans p ast).foldlM (bindParsedPlan number p config) w
  | .identifier name, w => by
    rw [bindSourcesWalk, walkedPlans]
    cases planAt p (Ast.identifier (D := D) name) with
    | none => rfl
    | some plan => simp
  | .call name args argNames, w => by
    rw [bindSourcesWalk, walkedPlans]
    cases planAt p (.call name args argNames) with
    | none => exact bindSourcesWalkAll_eq args w
    | some plan => simp
  | .producerAccess name args argNames field, w => by
    rw [bindSourcesWalk, walkedPlans]
    cases planAt p (.producerAccess name args argNames field) with
    | none => exact bindSourcesWalkAll_eq args w
    | some plan => simp
  | .index target i, w => by
    rw [bindSourcesWalk, walkedPlans]
    cases planAt p (.index target i) with
    | some plan => simp
    | none =>
      simp only [List.foldlM_append]
      rw [bindSourcesWalk_eq target w]
      exact congrArg _ (funext (bindSourcesWalk_eq i))
  | .binary op l r, w => by
    rw [bindSourcesWalk, walkedPlans, List.foldlM_append, bindSourcesWalk_eq l w]
    exact congrArg _ (funext (bindSourcesWalk_eq r))
  | .unary op a, w => by
    rw [bindSourcesWalk, walkedPlans, bindSourcesWalk_eq a w]
  | .ternary c t e, w => by
    rw [bindSourcesWalk, walkedPlans, List.foldlM_append, List.foldlM_append, bindSourcesWalk_eq c w,
      show bindSourcesWalk number p config t = _ from funext (bindSourcesWalk_eq t)]
    exact congrArg _ (funext (bindSourcesWalk_eq e))
  | .number v, w | .int64 v, w | .bool v, w | .string v, w => rfl
  | .array elements, w => rfl
  | .record names values, w => rfl
  | .param name, w => rfl
  | .fieldAccess object field, w => rfl
  | .fieldOf base field, w => rfl
  | .chainAccess path, w => rfl

theorem bindSourcesWalkAll_eq : ∀ (as : List (Ast D)) (w : Progress D σ),
    bindSourcesWalkAll number p config as w = (walkedPlansAll p as).foldlM (bindParsedPlan number p config) w
  | [], w => rfl
  | a :: as, w => by
    rw [bindSourcesWalkAll, walkedPlansAll, List.foldlM_append, bindSourcesWalk_eq a w]
    exact congrArg _ (funext (bindSourcesWalkAll_eq as))

end

/-! ### One run -/

theorem mem_of_bindingsContains {bindings : List Entry} {requirementId : UInt64} :
    bindingsContains bindings requirementId = true ↔ ∃ b ∈ bindings, b.requirement.requirementId = requirementId := by
  simp [bindingsContains]

variable {plan : Plan D} {w : Progress D σ}

omit [Double D] in
theorem bindParsedPlan_cases (hconfig : config.bindRequirement = none) {w' : Progress D σ}
    (h : bindParsedPlan number p config w plan = some w') :
    (bindingsContains w.bindings plan.root.leafInfo.requirementId = true ∧ w' = w) ∨
      ∃ (args : List D) (handle : UInt64) (userdata : σ),
        bindingsContains w.bindings plan.root.leafInfo.requirementId = false ∧
          plan.occurrence number = some (Call.occurrence ⟨plan.root.leafInfo, args, handle⟩) ∧
          w' = ⟨w.bindings ++ [⟨requirementOf p plan.root.leafInfo, handle⟩], userdata,
            w.calls ++ [⟨plan.root.leafInfo, args, handle⟩]⟩ := by
  simp only [bindParsedPlan, Option.bind_eq_bind, Option.bind_eq_some_iff] at h
  obtain ⟨planArgs, heval, hleaf⟩ := h
  rw [bindLeaf] at hleaf
  cases hseen : bindingsContains w.bindings plan.root.leafInfo.requirementId with
  | true =>
    rw [hseen, if_pos rfl] at hleaf
    exact .inl ⟨rfl, (Option.some.inj hleaf).symm⟩
  | false =>
    rw [hseen, if_neg (by simp)] at hleaf
    simp only [hconfig, Option.bind_eq_bind, Option.bind_eq_some_iff] at hleaf
    obtain ⟨bind, _, args, hargs, ⟨handle, userdata⟩, _, hsome⟩ := hleaf
    refine .inr ⟨args, handle, userdata, rfl, ?_, ?_⟩
    · simp [Plan.occurrence, heval, hargs, Call.occurrence]
    · rw [← Option.some.inj hsome, bindingsAppend, if_neg]
      rw [show (requirementOf p plan.root.leafInfo).requirementId = plan.root.leafInfo.requirementId from rfl, hseen]
      simp

structure Tracks (number : Ast D → Option D) (plans : List (Plan D)) (w : Progress D σ) : Prop where
  handles : w.bindings.map (fun b => (b.requirement.requirementId, b.handle)) =
    w.calls.map fun c => (c.node.requirementId, c.handle)
  calls : Representatives Occurrence.requirementId (plans.filterMap fun plan => plan.occurrence number)
    (w.calls.map Call.occurrence)

omit [Double D] in
theorem Tracks.initial (userdata : σ) : Tracks number [] ⟨[], userdata, []⟩ where
  handles := rfl
  calls := .nil

omit [Double D] in
theorem Tracks.contains_iff {plans : List (Plan D)} (h : Tracks number plans w) (requirementId : UInt64) :
    bindingsContains w.bindings requirementId = true ↔
      ∃ o ∈ w.calls.map Call.occurrence, o.requirementId = requirementId := by
  have hids : w.bindings.map (·.requirement.requirementId) = w.calls.map (·.node.requirementId) := by
    have hfst := congrArg (List.map Prod.fst) h.handles
    simpa only [List.map_map, Function.comp_def] using hfst
  rw [mem_of_bindingsContains]
  constructor
  · rintro ⟨b, hb, rfl⟩
    have hmem : b.requirement.requirementId ∈ w.calls.map (·.node.requirementId) := hids ▸ List.mem_map_of_mem hb
    obtain ⟨c, hc, hid⟩ := List.mem_map.mp hmem
    exact ⟨c.occurrence, List.mem_map_of_mem hc, hid⟩
  · rintro ⟨o, ho, rfl⟩
    obtain ⟨c, hc, rfl⟩ := List.mem_map.mp ho
    have hmem : c.node.requirementId ∈ w.bindings.map (·.requirement.requirementId) := hids.symm ▸ List.mem_map_of_mem hc
    exact List.mem_map.mp hmem

omit [Double D] in
theorem occurrence_requirementId {o : Occurrence D} (h : plan.occurrence number = some o) :
    o.requirementId = plan.root.leafInfo.requirementId := by
  simp only [Plan.occurrence, Option.bind_eq_bind, Option.bind_eq_some_iff, Option.some.injEq] at h
  obtain ⟨_, _, _, _, rfl⟩ := h
  rfl

omit [Double D] in
theorem Tracks.step (hconfig : config.bindRequirement = none) {plans : List (Plan D)} {plan : Plan D} {w w' : Progress D σ}
    (h : Tracks number plans w) (hstep : bindParsedPlan number p config w plan = some w') :
    Tracks number (plans ++ [plan]) w' := by
  rcases bindParsedPlan_cases hconfig hstep with ⟨hseen, rfl⟩ | ⟨args, handle, userdata, hnew, hoccurrence, rfl⟩
  · refine ⟨h.handles, ?_⟩
    rw [List.filterMap_append]
    cases hoccurrence : plan.occurrence number with
    | none => simpa [hoccurrence] using h.calls
    | some o =>
      have hid := (h.contains_iff _).mp hseen
      rw [← occurrence_requirementId hoccurrence] at hid
      simpa [hoccurrence] using h.calls.seen hid
  · refine ⟨?_, ?_⟩
    · simp only [List.map_append, h.handles]
      rfl
    · have hfresh : ∀ o ∈ w.calls.map Call.occurrence, o.requirementId ≠ plan.root.leafInfo.requirementId := by
        intro o ho heq
        have hseen := (h.contains_iff _).mpr ⟨o, ho, heq⟩
        rw [hnew] at hseen
        simp at hseen
      rw [List.filterMap_append, List.map_append]
      simpa [hoccurrence] using h.calls.new (x := Call.occurrence ⟨plan.root.leafInfo, args, handle⟩) hfresh

omit [Double D] in
theorem Tracks.run (hconfig : config.bindRequirement = none) {plans done : List (Plan D)} {w' : Progress D σ}
    (h : Tracks number done w) (hrun : plans.foldlM (bindParsedPlan number p config) w = some w') :
    Tracks number (done ++ plans) w' := by
  induction plans generalizing done w with
  | nil =>
    obtain rfl : w = w' := Option.some.inj hrun
    rwa [List.append_nil]
  | cons plan plans ih =>
    rw [List.foldlM_cons, Option.bind_eq_bind, Option.bind_eq_some_iff] at hrun
    obtain ⟨w₁, hstep, hrest⟩ := hrun
    have hdone := ih (h.step hconfig hstep) hrest
    rwa [List.append_assoc] at hdone

theorem occurs_of_plan {ast : Ast D} {o : Occurrence D} (h : planAt p ast = some plan)
    (ho : o ∈ [plan].filterMap fun plan => plan.occurrence number) : Occurs number p ast o := by
  obtain ⟨_, hmem, hoccurrence⟩ := List.mem_filterMap.mp ho
  rw [List.mem_singleton.mp hmem] at hoccurrence
  exact .leaf h hoccurrence

theorem planAt_of_not_root {ast : Ast D} (h : shouldParseAtNode ast = false) : planAt p ast = none := by
  rw [planAt, h]
  rfl

mutual

theorem occurs_of_walked : ∀ (ast : Ast D) {o : Occurrence D}, o ∈ walked number p ast → Occurs number p ast o
  | .identifier name, o, h => by
    rw [walked, walkedPlans] at h
    cases hplan : planAt p (Ast.identifier (D := D) name) with
    | none => simp [hplan] at h
    | some plan =>
      rw [hplan] at h
      exact occurs_of_plan hplan h
  | .call name args argNames, o, h => by
    rw [walked, walkedPlans] at h
    cases hplan : planAt p (.call name args argNames) with
    | some plan =>
      rw [hplan] at h
      exact occurs_of_plan hplan h
    | none =>
      rw [hplan] at h
      obtain ⟨a, ha, hoccurs⟩ := occurs_of_walkedAll args h
      exact .child hplan ha hoccurs
  | .producerAccess name args argNames field, o, h => by
    rw [walked, walkedPlans] at h
    cases hplan : planAt p (.producerAccess name args argNames field) with
    | some plan =>
      rw [hplan] at h
      exact occurs_of_plan hplan h
    | none =>
      rw [hplan] at h
      obtain ⟨a, ha, hoccurs⟩ := occurs_of_walkedAll args h
      exact .child hplan ha hoccurs
  | .index target i, o, h => by
    rw [walked, walkedPlans] at h
    cases hplan : planAt p (.index target i) with
    | some plan =>
      rw [hplan] at h
      exact occurs_of_plan hplan h
    | none =>
      rw [hplan] at h
      simp only [List.filterMap_append] at h
      rcases List.mem_append.mp h with h | h
      · exact .child hplan (by simp [children]) (occurs_of_walked target h)
      · exact .child hplan (by simp [children]) (occurs_of_walked i h)
  | .binary op l r, o, h => by
    rw [walked, walkedPlans, List.filterMap_append] at h
    rcases List.mem_append.mp h with h | h
    · exact .child (planAt_of_not_root rfl) (by simp [children]) (occurs_of_walked l h)
    · exact .child (planAt_of_not_root rfl) (by simp [children]) (occurs_of_walked r h)
  | .unary op a, o, h => by
    rw [walked, walkedPlans] at h
    exact .child (planAt_of_not_root rfl) (by simp [children]) (occurs_of_walked a h)
  | .ternary c t e, o, h => by
    rw [walked, walkedPlans, List.filterMap_append, List.filterMap_append] at h
    rcases List.mem_append.mp h with h | h
    · rcases List.mem_append.mp h with h | h
      · exact .child (planAt_of_not_root rfl) (by simp [children]) (occurs_of_walked c h)
      · exact .child (planAt_of_not_root rfl) (by simp [children]) (occurs_of_walked t h)
    · exact .child (planAt_of_not_root rfl) (by simp [children]) (occurs_of_walked e h)
  | .number v, o, h | .int64 v, o, h | .bool v, o, h | .string v, o, h => by simp [walked, walkedPlans] at h
  | .array elements, o, h => by simp [walked, walkedPlans] at h
  | .record names values, o, h => by simp [walked, walkedPlans] at h
  | .param name, o, h => by simp [walked, walkedPlans] at h
  | .fieldAccess object field, o, h => by simp [walked, walkedPlans] at h
  | .fieldOf base field, o, h => by simp [walked, walkedPlans] at h
  | .chainAccess path, o, h => by simp [walked, walkedPlans] at h

theorem occurs_of_walkedAll : ∀ (as : List (Ast D)) {o : Occurrence D},
    o ∈ ((walkedPlansAll p as).filterMap fun plan => plan.occurrence number) → ∃ a ∈ as, Occurs number p a o
  | [], o, h => by simp [walkedPlansAll] at h
  | a :: as, o, h => by
    rw [walkedPlansAll, List.filterMap_append] at h
    rcases List.mem_append.mp h with h | h
    · exact ⟨a, by simp, occurs_of_walked a h⟩
    · obtain ⟨b, hb, hoccurs⟩ := occurs_of_walkedAll as h
      exact ⟨b, by simp [hb], hoccurs⟩

end

/-- A successful run of the bind callback binds an expression's leaves completely exactly when their requirement ids tell
    the leaves apart and none stands only where the walk does not come. -/
theorem planBindSources_complete_iff (number : Ast D → Option D) (p : Provider) (config : PlanConfig D σ)
    (hconfig : config.bindRequirement = none) (userdata : σ) (expr : Ast D) (w : Progress D σ)
    (h : planBindSources number p config userdata expr = some w) :
    BoundCompletely number p expr w ↔ Distinguished number p expr := by
  have hrun : bindSourcesWalk number p config expr ⟨[], userdata, []⟩ = some w := by
    rw [planBindSources] at h
    split at h
    · cases h
    · exact h
  rw [bindSourcesWalk_eq] at hrun
  have htracks := (Tracks.initial userdata).run hconfig hrun
  rw [List.nil_append] at htracks
  have hfaithful := @Representatives.faithful_iff _ _ _ _ Occurrence.leaf _ _ htracks.calls
  rw [List.map_map] at hfaithful
  constructor
  · intro hbound
    have hreached : ∀ o, Occurs number p expr o → o ∈ walked number p expr := fun o ho => by
      obtain ⟨c, hc, rfl⟩ := hbound.passed o ho
      exact htracks.calls.mem _ (List.mem_map_of_mem hc)
    refine ⟨hreached, hfaithful.mp ⟨fun o ho => ?_, hbound.separate⟩⟩
    obtain ⟨c, hc, rfl⟩ := hbound.passed o (occurs_of_walked expr ho)
    exact ⟨c.occurrence, List.mem_map_of_mem hc, rfl, rfl⟩
  · intro hdistinguished
    obtain ⟨hown, hseparate⟩ := hfaithful.mpr hdistinguished.ids
    refine ⟨fun o ho => ?_, htracks.handles, hseparate⟩
    obtain ⟨o', ho', hid, hleaf⟩ := hown o (hdistinguished.reached o ho)
    obtain ⟨c, hc, rfl⟩ := List.mem_map.mp ho'
    refine ⟨c, hc, ?_⟩
    obtain ⟨requirementId, leaf⟩ := o
    exact congrArg₂ Occurrence.mk hid hleaf

end

/-- A provider with the function `atr`. -/
def indicators : Provider where
  name := "indicators"
  fnSpecFind name := if name = "atr" then some ⟨0, 0, 1, .number, false, false, none⟩ else none
  sourceSpecFind _ := none
  exprParamSpec _ := none

def numbered : PlanConfig Int UInt64 where
  bind := some fun _ _ next => some (next, next + 1)
  bindRequirement := none

def literalNumber : Ast Int → Option Int
  | .number v => some v
  | _ => none

/-- The call `atr(length)`. -/
def atr (length : Int) : Ast Int := .call "atr" [.number length] []

theorem atr_complete_iff :
    ∃ w, planBindSources literalNumber indicators numbered 7 (atr 14) = some w ∧
      (BoundCompletely literalNumber indicators (atr 14) w ↔ Distinguished literalNumber indicators (atr 14)) := by
  have hruns : (planBindSources literalNumber indicators numbered 7 (atr 14)).isSome = true := by decide +kernel
  obtain ⟨w, hw⟩ := Option.isSome_iff_exists.mp hruns
  exact ⟨w, hw, planBindSources_complete_iff literalNumber indicators numbered rfl 7 (atr 14) w hw⟩

theorem atr_difference_incomplete :
    ∃ w, planBindSources literalNumber indicators numbered 7 (.binary .minus (atr 14) (atr 28)) = some w ∧
      ¬ BoundCompletely literalNumber indicators (.binary .minus (atr 14) (atr 28)) w := by
  have hruns : (planBindSources literalNumber indicators numbered 7 (.binary .minus (atr 14) (atr 28))).map
      (fun w => w.calls.map Call.args) = some [[14]] := by decide +kernel
  have hsecond : ((planAt indicators (atr 28)).bind fun plan => plan.occurrence literalNumber).map
      (fun o => o.leaf.values) = some [28] := by decide +kernel
  obtain ⟨w, hw, hcalls⟩ := Option.map_eq_some_iff.mp hruns
  obtain ⟨o, ho, hvalues⟩ := Option.map_eq_some_iff.mp hsecond
  obtain ⟨plan, hplan, hoccurrence⟩ := Option.bind_eq_some_iff.mp ho
  refine ⟨w, hw, fun hbound => ?_⟩
  have hoccurs : Occurs literalNumber indicators (.binary .minus (atr 14) (atr 28)) o :=
    .child (planAt_of_not_root rfl) (by simp [children]) (.leaf hplan hoccurrence)
  obtain ⟨c, hc, rfl⟩ := hbound.passed o hoccurs
  have hargs : c.args ∈ w.calls.map Call.args := List.mem_map_of_mem hc
  rw [hcalls, show c.args = [28] from hvalues] at hargs
  simp at hargs

end Cxpr.Source
