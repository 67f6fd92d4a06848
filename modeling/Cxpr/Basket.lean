import Cxpr.Engine.Calls
import Cxpr.Eval.Tree
import Cxpr.Lib.Computes

/-! Basket aggregates (`src/basket.c`): `avg`, `any`, `all`, `min` and `max` of an expression over the members of a role.
    The callback evaluates its argument with the registry that it is called with; what an expression evaluates to is a
    parameter here. -/

namespace Cxpr.Basket
variable {D : Type}

/-! ### Roles -/

def isBuiltin (name : String) : Bool :=
  name == "avg" || name == "any" || name == "all" || name == "min" || name == "max" || name == "count"

def roleStructName (role : String) : String := "__cxpr_basket_role_" ++ role

structure RoleBinding (D : Type) where
  boundCount : Nat := 0
  values : List D := []

/-- The test of `cxpr_basket_load_role_binding` for the field of a member. -/
def isMemberField (name : String) : Bool :=
  match name.toList with
  | 'v' :: _ :: _ => true
  | _ => false

section
variable [Double D]

/-- One turn of the loop of `cxpr_basket_load_role_binding`. -/
def loadField (out : RoleBinding D) (x : String × Value D) : RoleBinding D :=
  match x.2 with
  | .number d =>
    if x.1 == "bound_count" then { out with boundCount := if Double.gt d Double.zero then Double.toSize d else 0 }
    else if x.1 == "value_count" then out
    else if isMemberField x.1 then { out with values := out.values ++ [d] }
    else out
  | _ => out

def loadRoleBinding (ctx : Context D) (role : String) : Option (RoleBinding D) :=
  (ctx.getStruct (roleStructName role)).map fun fields => fields.foldl loadField {}

omit [Double D] in
def mergeUnique (names : List String) (name : String) : List String := if name ∈ names then names else names ++ [name]

def expandable (ctx : Context D) (role : String) : Bool := (loadRoleBinding ctx role).any (1 < ·.boundCount)

mutual

def collectFreeRoles (ctx : Context D) : Ast D → List String → List String
  | .param role, names => if expandable ctx role then mergeUnique names role else names
  | .binary _ left right, names => collectFreeRoles ctx right (collectFreeRoles ctx left names)
  | .unary _ operand, names => collectFreeRoles ctx operand names
  | .index target index, names => collectFreeRoles ctx index (collectFreeRoles ctx target names)
  | .ternary condition trueBranch falseBranch, names =>
    collectFreeRoles ctx falseBranch (collectFreeRoles ctx trueBranch (collectFreeRoles ctx condition names))
  | .call name args _, names =>
    if args.length == 1 && isBuiltin name then names else collectFreeRolesOf ctx args names
  | .producerAccess _ args _ _, names => collectFreeRolesOf ctx args names
  | _, names => names

/-- The loops of `cxpr_basket_collect_free_roles` over arguments. -/
def collectFreeRolesOf (ctx : Context D) : List (Ast D) → List String → List String
  | [], names => names
  | arg :: args, names => collectFreeRolesOf ctx args (collectFreeRoles ctx arg names)

end

omit [Double D] in
def evalError {α : Type} (message : String) : Except Error α := .error ⟨.unknownIdentifier, message⟩

def avgLoop : List (Value D) → D → Except Error D
  | [], numeric => .ok numeric
  | .number d :: results, numeric => avgLoop results (Double.add numeric d)
  | _ :: _, _ => evalError "avg() requires numeric results"

omit [Double D] in
def anyLoop : List (Value D) → Except Error (Value D)
  | [] => .ok (.bool false)
  | .bool b :: results => if b then .ok (.bool true) else anyLoop results
  | _ :: _ => evalError "any() requires boolean results"

omit [Double D] in
def allLoop : List (Value D) → Except Error (Value D)
  | [] => .ok (.bool true)
  | .bool b :: results => if b then allLoop results else .ok (.bool false)
  | _ :: _ => evalError "all() requires boolean results"

def extremeLoop (fn : String) : List (Value D) → D → Except Error D
  | [], numeric => .ok numeric
  | .number d :: results, numeric =>
    extremeLoop fn results
      (if fn == "min" then (if Double.lt d numeric then d else numeric) else (if Double.gt d numeric then d else numeric))
  | _ :: _, _ => evalError "min()/max() basket aggregation requires numeric results"

def evalFoldedResults (fn : String) (results : List (Value D)) : Except Error (Value D) :=
  match results with
  | [] => evalError "Unsupported basket builtin"
  | first :: rest =>
    if fn == "avg" then
      (avgLoop results Double.zero).map fun numeric => .number (Double.div numeric (Double.ofNat results.length))
    else if fn == "any" then anyLoop results
    else if fn == "all" then allLoop results
    else if fn == "min" || fn == "max" then
      match first with
      | .number d => (extremeLoop fn rest d).map .number
      | _ => evalError "min()/max() basket aggregation requires numeric results"
    else evalError "Unsupported basket builtin"

omit [Double D] in
def overlay (ctx : Context D) (role : String) (value : D) : Context D :=
  ctx.overlayNew.update (·.setParam role value)

def evalDirectArgs (evalNumber : Ast D → Context D → Except Error D) (fn : String) (args : List (Ast D))
    (ctx : Context D) : Except Error (Value D) := do
  if args.isEmpty then
    if fn == "avg" then evalError "avg() expects at least one argument"
    else evalError "Basket builtin expects exactly one argument"
  else evalFoldedResults fn (← args.mapM fun arg => (evalNumber arg ctx).map .number)

/-- The part of `cxpr_basket_eval_call` for `count`. -/
def evalCount (arg : Ast D) (ctx : Context D) : Except Error (Value D) :=
  match arg with
  | .param role =>
    match loadRoleBinding ctx role with
    | some binding => .ok (.number (Double.ofNat binding.boundCount))
    | none => evalError "count() requires a bound role variable"
  | _ => evalError "count() requires a role variable like count($pair)"

/-- The part of `cxpr_basket_eval_call` for the other builtins with one argument. -/
def evalExpanded (eval : Ast D → Context D → Except Error (Value D)) (fn : String) (arg : Ast D) (ctx : Context D) :
    Except Error (Value D) :=
  match collectFreeRoles ctx arg [] with
  | [] => eval arg ctx
  | [role] =>
    match loadRoleBinding ctx role with
    | none => evalError "Basket aggregate requires a bound role variable"
    | some binding =>
      if binding.values.isEmpty then .ok (.number Double.zero)
      else do evalFoldedResults fn (← binding.values.mapM fun value => eval arg (overlay ctx role value))
  | _ => evalError "Basket aggregate can only expand one role at a time"

def basketEvalCall (eval : Ast D → Context D → Except Error (Value D)) (evalNumber : Ast D → Context D → Except Error D) :
    AstFunc D
  | .call fn [arg] _, ctx => if fn == "count" then evalCount arg ctx else evalExpanded eval fn arg ctx
  | .call fn args _, ctx =>
    if fn == "avg" || fn == "min" || fn == "max" then evalDirectArgs evalNumber fn args ctx
    else evalError "Basket builtin expects exactly one argument"
  | _, _ => evalError "Basket builtin expects exactly one argument"

inductive Aggregate where
  | avg | any | all | min | max
deriving DecidableEq, Repr

namespace Aggregate

def name : Aggregate → String
  | avg => "avg"
  | any => "any"
  | all => "all"
  | min => "min"
  | max => "max"

def typeError : Aggregate → Error
  | avg => ⟨.unknownIdentifier, "avg() requires numeric results"⟩
  | any => ⟨.unknownIdentifier, "any() requires boolean results"⟩
  | all => ⟨.unknownIdentifier, "all() requires boolean results"⟩
  | min | max => ⟨.unknownIdentifier, "min()/max() basket aggregation requires numeric results"⟩

omit [Double D] in
def type : Aggregate → ValueType
  | avg | min | max => .number
  | any | all => .bool

/-- The results that do not decide it: for `any` and `all` those of one truth value, for the others all numbers. -/
def undecided : Aggregate → Value D → Bool
  | any, .bool b => !b
  | all, .bool b => b
  | avg, .number _ | min, .number _ | max, .number _ => true
  | _, _ => false

def asNumber (agg : Aggregate) : Value D → Except Error D
  | .number d => .ok d
  | _ => .error agg.typeError

/-- The fold of some results: the mean, the smallest or the greatest number, or whether one or all of them are true.
    `any` and `all` look at the results up to the first that decides them. -/
def fold (agg : Aggregate) (results : List (Value D)) : Except Error (Value D) :=
  match agg with
  | avg => do
    let ds ← results.mapM agg.asNumber
    return .number (Double.div (ds.foldl Double.add Double.zero) (Double.ofNat ds.length))
  | any | all =>
    match results.find? (!agg.undecided ·) with
    | none => .ok (.bool (agg == .all))
    | some (.bool b) => .ok (.bool b)
    | some _ => .error agg.typeError
  | min => do
    match ← results.mapM agg.asNumber with
    | [] => .error agg.typeError
    | d :: ds => return .number (ds.foldl (fun least d => if Double.lt d least then d else least) d)
  | max => do
    match ← results.mapM agg.asNumber with
    | [] => .error agg.typeError
    | d :: ds => return .number (ds.foldl (fun most d => if Double.gt d most then d else most) d)

/-- The aggregate of an expression over some contexts: a failing evaluation makes it fail. -/
def aggregate (agg : Aggregate) (eval : Ast D → Context D → Except Error (Value D)) (e : Ast D)
    (ctxs : List (Context D)) : Except Error (Value D) := do
  agg.fold (← ctxs.mapM (eval e))

omit [Double D] in
theorem mapM_ok {α β : Type} {f : α → Except Error β} {as : List α} {bs : List β} (h : as.mapM f = .ok bs) :
    List.Forall₂ (fun a b => f a = .ok b) as bs := by
  induction as generalizing bs with
  | nil =>
    cases h
    exact .nil
  | cons a as ih =>
    rw [List.mapM_cons] at h
    obtain ⟨b, hb, h⟩ := bind_eq_ok.mp h
    obtain ⟨rest, hrest, h⟩ := bind_eq_ok.mp h
    cases h
    exact .cons hb (ih hrest)

omit [Double D] in
theorem mapM_error_iff {α β : Type} {f : α → Except Error β} {as : List α} :
    (∃ err, as.mapM f = .error err) ↔ ∃ a ∈ as, ∃ err, f a = .error err := by
  induction as with
  | nil => simp [pure, Except.pure]
  | cons a as ih =>
    rw [List.exists_mem_cons_iff, ← ih, List.mapM_cons]
    cases f a with
    | error err => simp [bind, Except.bind]
    | ok b => cases as.mapM f <;> simp [bind, Except.bind, pure, Except.pure]

theorem avgLoop_eq (results : List (Value D)) (numeric : D) :
    avgLoop results numeric = (results.mapM avg.asNumber).map fun ds => ds.foldl Double.add numeric := by
  induction results generalizing numeric with
  | nil => rfl
  | cons v results ih =>
    rw [List.mapM_cons]
    cases v with
    | number d =>
      rw [avgLoop, ih]
      cases results.mapM avg.asNumber <;> rfl
    | _ => rfl

theorem anyLoop_eq (results : List (Value D)) : anyLoop results = any.fold results := by
  induction results with
  | nil => rfl
  | cons v results ih =>
    cases v with
    | bool b =>
      cases b with
      | false => exact ih
      | true => rfl
    | _ => rfl

theorem allLoop_eq (results : List (Value D)) : allLoop results = all.fold results := by
  induction results with
  | nil => rfl
  | cons v results ih =>
    cases v with
    | bool b =>
      cases b with
      | false => rfl
      | true => exact ih
    | _ => rfl

theorem extremeLoop_eq (agg : Aggregate) (hagg : agg = min ∨ agg = max) (results : List (Value D)) (numeric : D) :
    extremeLoop agg.name results numeric = (results.mapM agg.asNumber).map fun ds =>
      ds.foldl (fun best d => if agg = min then (if Double.lt d best then d else best)
        else (if Double.gt d best then d else best)) numeric := by
  induction results generalizing numeric with
  | nil => rfl
  | cons v results ih =>
    rw [List.mapM_cons]
    cases v with
    | number d =>
      rw [extremeLoop, ih]
      rcases hagg with rfl | rfl <;> cases results.mapM (asNumber _) <;> rfl
    | _ => rcases hagg with rfl | rfl <;> rfl

variable {results : List (Value D)}

theorem evalFoldedResults_eq (agg : Aggregate) (hne : results ≠ []) :
    evalFoldedResults agg.name results = agg.fold results := by
  obtain ⟨first, rest, rfl⟩ := List.exists_cons_of_ne_nil hne
  cases agg with
  | avg =>
    show (avgLoop (first :: rest) Double.zero).map _ = _
    rw [avgLoop_eq]
    unfold fold
    cases hds : (first :: rest).mapM avg.asNumber with
    | error err => rfl
    | ok ds =>
      show Except.ok (Value.number (Double.div _ (Double.ofNat (first :: rest).length))) = Except.ok _
      rw [(mapM_ok hds).length_eq]
  | any => exact anyLoop_eq (first :: rest)
  | all => exact allLoop_eq (first :: rest)
  | min =>
    unfold fold
    rw [List.mapM_cons]
    cases first with
    | number d =>
      show (extremeLoop min.name rest d).map _ = _
      rw [extremeLoop_eq min (.inl rfl)]
      cases rest.mapM min.asNumber <;> rfl
    | _ => rfl
  | max =>
    unfold fold
    rw [List.mapM_cons]
    cases first with
    | number d =>
      show (extremeLoop max.name rest d).map _ = _
      rw [extremeLoop_eq max (.inr rfl)]
      cases rest.mapM max.asNumber <;> rfl
    | _ => rfl

omit [Double D] in
theorem type_of_undecided {agg : Aggregate} {v : Value D} (h : agg.undecided v = true) : v.type = agg.type := by
  cases agg <;> cases v <;> simp_all [undecided, type, Value.type]

omit [Double D] in
theorem mapM_asNumber_error_iff {agg : Aggregate} (hagg : agg.type = .number) :
    (∃ err, results.mapM agg.asNumber = .error err) ↔
      ∃ v, results.find? (!agg.undecided ·) = some v ∧ v.type ≠ agg.type := by
  have hvalue : ∀ v : Value D, (∃ err, agg.asNumber v = .error err) ↔ v.type ≠ .number := by
    intro v
    cases v <;> simp [asNumber, Value.type]
  have hundecided : ∀ v : Value D, agg.undecided v = false ↔ v.type ≠ .number := by
    intro v
    cases agg <;> simp [type] at hagg <;> cases v <;> simp [undecided, Value.type]
  rw [mapM_error_iff, hagg]
  constructor
  · rintro ⟨v, hv, hfails⟩
    have hfound : (results.find? (!agg.undecided ·)).isSome := by
      rw [List.find?_isSome]
      exact ⟨v, hv, by simpa using (hundecided v).mpr ((hvalue v).mp hfails)⟩
    obtain ⟨w, hw⟩ := Option.isSome_iff_exists.mp hfound
    exact ⟨w, hw, (hundecided w).mp (by simpa using List.find?_some hw)⟩
  · rintro ⟨v, hv, htype⟩
    exact ⟨v, List.mem_of_find?_eq_some hv, (hvalue v).mpr htype⟩

theorem fold_error_iff (agg : Aggregate) (hne : results ≠ []) :
    (∃ err, agg.fold results = .error err) ↔ ∃ before v after, results = before ++ v :: after ∧
      (∀ u ∈ before, agg.undecided u = true) ∧ v.type ≠ agg.type := by
  have hfirst : (∃ v, results.find? (!agg.undecided ·) = some v ∧ v.type ≠ agg.type) ↔
      ∃ before v after, results = before ++ v :: after ∧ (∀ u ∈ before, agg.undecided u = true) ∧ v.type ≠ agg.type := by
    constructor
    · rintro ⟨v, hv, htype⟩
      obtain ⟨-, before, after, hsplit, hbefore⟩ := List.find?_eq_some_iff_append.mp hv
      exact ⟨before, v, after, hsplit, fun u hu => by simpa using hbefore u hu, htype⟩
    · rintro ⟨before, v, after, hsplit, hbefore, htype⟩
      refine ⟨v, List.find?_eq_some_iff_append.mpr ⟨?_, before, after, hsplit, fun u hu => ?_⟩, htype⟩
      · simpa using fun h => htype (type_of_undecided h)
      · simpa using hbefore u hu
  rw [← hfirst]
  have hnumbers : ∀ {ds}, results.mapM agg.asNumber = .ok ds → ∃ d rest, ds = d :: rest := by
    intro ds hds
    refine List.exists_cons_of_ne_nil ?_
    rintro rfl
    exact hne (List.forall₂_nil_right_iff.mp (mapM_ok hds))
  cases agg with
  | any =>
    unfold fold
    cases results.find? (!any.undecided ·) with
    | none => simp
    | some v => cases v <;> simp [Value.type, type]
  | all =>
    unfold fold
    cases results.find? (!all.undecided ·) with
    | none => simp
    | some v => cases v <;> simp [Value.type, type]
  | avg =>
    rw [← mapM_asNumber_error_iff rfl]
    unfold fold
    cases results.mapM avg.asNumber <;> simp [bind, Except.bind, pure, Except.pure]
  | min =>
    rw [← mapM_asNumber_error_iff rfl]
    unfold fold
    cases hds : results.mapM min.asNumber with
    | error err => simp [bind, Except.bind]
    | ok ds =>
      obtain ⟨d, rest, rfl⟩ := hnumbers hds
      simp [bind, Except.bind, pure, Except.pure]
  | max =>
    rw [← mapM_asNumber_error_iff rfl]
    unfold fold
    cases hds : results.mapM max.asNumber with
    | error err => simp [bind, Except.bind]
    | ok ds =>
      obtain ⟨d, rest, rfl⟩ := hnumbers hds
      simp [bind, Except.bind, pure, Except.pure]

theorem aggregate_error_iff (agg : Aggregate) {eval : Ast D → Context D → Except Error (Value D)} {e : Ast D}
    {ctxs : List (Context D)} (hne : ctxs ≠ []) :
    (∃ err, agg.aggregate eval e ctxs = .error err) ↔
      (∃ ctx ∈ ctxs, ∃ err, eval e ctx = .error err) ∨
        ∃ before v after, ctxs.mapM (eval e) = .ok (before ++ v :: after) ∧
          (∀ u ∈ before, agg.undecided u = true) ∧ v.type ≠ agg.type := by
  unfold aggregate
  rw [← mapM_error_iff]
  cases hresults : ctxs.mapM (eval e) with
  | error err => simp [bind, Except.bind]
  | ok results =>
    have hresultsNe : results ≠ [] := by
      rintro rfl
      exact hne (List.forall₂_nil_right_iff.mp (mapM_ok hresults))
    show (∃ err, agg.fold results = .error err) ↔ _
    rw [fold_error_iff agg hresultsNe]
    simp

end Aggregate

/-! ### The roles of an expression -/

mutual

/-- The roles that an aggregate of an expression may expand: those in it, but not in an aggregate within it. -/
def roles : Ast D → List String
  | .param role => [role]
  | .array elements => rolesOf elements
  | .record _ values => rolesOf values
  | .fieldOf base _ => roles base
  | .producerAccess _ args _ _ => rolesOf args
  | .binary _ left right => roles left ++ roles right
  | .unary _ operand => roles operand
  | .call name args _ => if args.length == 1 && isBuiltin name then [] else rolesOf args
  | .index target index => roles target ++ roles index
  | .ternary condition trueBranch falseBranch => roles condition ++ roles trueBranch ++ roles falseBranch
  | _ => []

def rolesOf : List (Ast D) → List String
  | [] => []
  | e :: es => roles e ++ rolesOf es

end

mutual

/-- The roles among them that are in no array, no record and no base of a field access. -/
def reachedRoles : Ast D → List String
  | .param role => [role]
  | .producerAccess _ args _ _ => reachedRolesOf args
  | .binary _ left right => reachedRoles left ++ reachedRoles right
  | .unary _ operand => reachedRoles operand
  | .call name args _ => if args.length == 1 && isBuiltin name then [] else reachedRolesOf args
  | .index target index => reachedRoles target ++ reachedRoles index
  | .ternary condition trueBranch falseBranch =>
    reachedRoles condition ++ reachedRoles trueBranch ++ reachedRoles falseBranch
  | _ => []

def reachedRolesOf : List (Ast D) → List String
  | [] => []
  | e :: es => reachedRoles e ++ reachedRolesOf es

end

def collect (ctx : Context D) (names : List String) (role : String) : List String :=
  if expandable ctx role then mergeUnique names role else names

mutual

theorem collectFreeRoles_eq (ctx : Context D) : ∀ (e : Ast D) (names : List String),
    collectFreeRoles ctx e names = (reachedRoles e).foldl (collect ctx) names
  | .param _, _ => rfl
  | .producerAccess _ args _ _, names => collectFreeRolesOf_eq ctx args names
  | .binary _ left right, names => by
    rw [collectFreeRoles, reachedRoles, List.foldl_append, collectFreeRoles_eq ctx left, collectFreeRoles_eq ctx right]
  | .unary _ operand, names => collectFreeRoles_eq ctx operand names
  | .call name args _, names => by
    rw [collectFreeRoles, reachedRoles, collectFreeRolesOf_eq ctx args]
    split <;> rfl
  | .index target index, names => by
    rw [collectFreeRoles, reachedRoles, List.foldl_append, collectFreeRoles_eq ctx target, collectFreeRoles_eq ctx index]
  | .ternary condition trueBranch falseBranch, names => by
    rw [collectFreeRoles, reachedRoles, List.foldl_append, List.foldl_append, collectFreeRoles_eq ctx condition,
      collectFreeRoles_eq ctx trueBranch, collectFreeRoles_eq ctx falseBranch]
  | .number _, _ | .int64 _, _ | .bool _, _ | .string _, _ | .array _, _ | .record _ _, _ | .identifier _, _
  | .fieldAccess _ _, _ | .fieldOf _ _, _ | .chainAccess _, _ => rfl

theorem collectFreeRolesOf_eq (ctx : Context D) : ∀ (es : List (Ast D)) (names : List String),
    collectFreeRolesOf ctx es names = (reachedRolesOf es).foldl (collect ctx) names
  | [], _ => rfl
  | e :: es, names => by
    rw [collectFreeRolesOf, reachedRolesOf, List.foldl_append, collectFreeRoles_eq ctx e, collectFreeRolesOf_eq ctx es]

end

omit [Double D] in
theorem append_subset_append {α : Type} {as as' bs bs' : List α} (ha : as ⊆ as') (hb : bs ⊆ bs') :
    as ++ bs ⊆ as' ++ bs' :=
  List.append_subset.mpr ⟨List.subset_append_of_subset_left _ ha, List.subset_append_of_subset_right _ hb⟩

section
omit [Double D]

mutual

theorem reachedRoles_subset : ∀ e : Ast D, reachedRoles e ⊆ roles e
  | .param _ => List.Subset.refl _
  | .producerAccess _ args _ _ => reachedRolesOf_subset args
  | .binary _ left right => append_subset_append (reachedRoles_subset left) (reachedRoles_subset right)
  | .unary _ operand => reachedRoles_subset operand
  | .call name args _ => by
    rw [reachedRoles, roles]
    split
    · exact List.Subset.refl _
    · exact reachedRolesOf_subset args
  | .index target index => append_subset_append (reachedRoles_subset target) (reachedRoles_subset index)
  | .ternary condition trueBranch falseBranch => append_subset_append
    (append_subset_append (reachedRoles_subset condition) (reachedRoles_subset trueBranch)) (reachedRoles_subset falseBranch)
  | .number _ | .int64 _ | .bool _ | .string _ | .array _ | .record _ _ | .identifier _ | .fieldAccess _ _
  | .fieldOf _ _ | .chainAccess _ => List.nil_subset _

theorem reachedRolesOf_subset : ∀ es : List (Ast D), reachedRolesOf es ⊆ rolesOf es
  | [] => List.Subset.refl _
  | e :: es => append_subset_append (reachedRoles_subset e) (reachedRolesOf_subset es)

end

end

variable {ctx : Context D} {role : String} {members : List D}

theorem foldl_collect (hexpandable : expandable ctx role = true) {qs names : List String}
    (honly : ∀ q ∈ qs, expandable ctx q = true → q = role) (hnames : names = [] ∨ names = [role]) :
    qs.foldl (collect ctx) names = if role ∈ qs then [role] else names := by
  induction qs generalizing names with
  | nil => rfl
  | cons q qs ih =>
    have htail := fun p hp => honly p (List.mem_cons_of_mem q hp)
    rw [List.foldl_cons]
    cases hq : expandable ctx q with
    | true =>
      obtain rfl := honly q List.mem_cons_self hq
      have hcollect : collect ctx names q = [q] := by
        unfold collect mergeUnique
        rcases hnames with rfl | rfl <;> simp [hq]
      rw [hcollect, ih htail (.inr rfl)]
      simp
    | false =>
      have hcollect : collect ctx names q = names := by
        unfold collect
        simp [hq]
      have hne : role ≠ q := by
        rintro rfl
        rw [hexpandable] at hq
        cases hq
      rw [hcollect, ih htail hnames]
      simp [hne]

theorem foldl_collect_none {qs : List String} (hnone : ∀ q ∈ qs, expandable ctx q = false) :
    qs.foldl (collect ctx) [] = [] := by
  induction qs with
  | nil => rfl
  | cons q qs ih =>
    have hcollect : collect ctx [] q = [] := by
      unfold collect
      rw [hnone q List.mem_cons_self]
      rfl
    rw [List.foldl_cons, hcollect]
    exact ih fun p hp => hnone p (List.mem_cons_of_mem q hp)

/-- A role is bound to its members: the struct in the context lists them, and a single one is its value. -/
structure RoleBound (ctx : Context D) (role : String) (members : List D) : Prop where
  binding : loadRoleBinding ctx role = some ⟨members.length, members⟩
  single : ∀ v, members = [v] → ctx.getParamTyped role = some (.number v)

/-- The contexts in which the role is the first, the second, ... member: that of the call, where it is the only one. -/
def memberContexts (ctx : Context D) (role : String) (members : List D) : List (Context D) :=
  if members.length = 1 then [ctx] else members.map (overlay ctx role)

omit [Double D] in
theorem getParamTyped_setParam (f : Frame D) (parent : Context D) (role : String) (v : D)
    (hdotted : (f.setParam role v).dottedParam role = none) :
    Context.getParamTyped (f.setParam role v :: parent) role = some (.number v) := by
  have hparam : Context.getParam (f.setParam role v :: parent) role = some v := by
    have hlookup : (f.setParam role v).params.lookup role = some v := AList.lookup_insert _
    rw [Context.getParam, hlookup]
    rfl
  rw [Context.getParamTyped, hdotted, hparam]
  simp [Frame.setParam]

/-- The numbers that `==` identifies, and the ones that are none. -/
def SameNumber (a b : D) : Prop := Double.eq a b = true ∨ Double.isnan a = true ∧ Double.isnan b = true

/-- The same result, up to the sign of a zero and the payload of a `NAN`. -/
def SameResult (x y : Except Error (Value D)) : Prop :=
  x = y ∨ ∃ a b, x = .ok (.number a) ∧ y = .ok (.number b) ∧ SameNumber a b

omit [Double D] in
theorem toList_memberField (i : Nat) : (s!"v{i}").toList = 'v' :: Nat.toDigits 10 i := by
  simp [toString, Nat.toList_repr]

omit [Double D] in
theorem memberField (i : Nat) : s!"v{i}" ≠ "bound_count" ∧ s!"v{i}" ≠ "value_count" ∧ isMemberField s!"v{i}" = true := by
  have hlist := toList_memberField i
  refine ⟨fun h => ?_, fun h => ?_, ?_⟩
  · rw [h] at hlist
    exact absurd (List.cons.inj hlist).1 (by decide)
  · rw [h] at hlist
    have hdigit : 'a' ∈ Nat.toDigits 10 i := by
      rw [← (List.cons.inj hlist).2]
      decide
    exact absurd (Nat.isDigit_of_mem_toDigits (by decide) (by decide) hdigit) (by decide)
  · unfold isMemberField
    rw [hlist]
    obtain ⟨d, ds, hds⟩ := List.exists_cons_of_ne_nil (Nat.toDigits_ne_nil (n := i) (b := 10))
    rw [hds]
    rfl

theorem foldl_members (xs : List (D × Nat)) (out : RoleBinding D) :
    (xs.map fun (v, i) => (s!"v{i}", Value.number v)).foldl loadField out =
      { out with values := out.values ++ xs.map (·.1) } := by
  induction xs generalizing out with
  | nil => simp
  | cons x xs ih =>
    obtain ⟨hbound, hvalue, hmember⟩ := memberField x.2
    have hload : loadField out (s!"v{x.2}", Value.number x.1) = { out with values := out.values ++ [x.1] } := by
      simp only [loadField, beq_iff_eq, hbound, hvalue, hmember, if_true, if_false]
    rw [List.map_cons, List.foldl_cons, hload, ih]
    simp

theorem loadRoleBinding_roleStruct
    (hstruct : ctx.getStruct (roleStructName role) = some (Engine.roleStruct members))
    (hcount : Double.gt (Double.ofNat members.length : D) Double.zero = true)
    (hsize : Double.toSize (Double.ofNat members.length : D) = members.length) :
    loadRoleBinding ctx role = some ⟨members.length, members⟩ := by
  have hload : (Engine.roleStruct members).foldl loadField {} = ⟨members.length, members⟩ := by
    unfold Engine.roleStruct
    rw [List.foldl_cons, List.foldl_cons, foldl_members]
    simp [loadField, hcount, hsize]
  unfold loadRoleBinding
  rw [hstruct, Option.map_some, hload]

omit [Double D] in
theorem append_ne_right {s t : String} (hs : s ≠ "") : s ++ t ≠ t := by
  intro h
  have hlength := congrArg String.utf8ByteSize h
  rw [String.utf8ByteSize_append] at hlength
  exact hs (String.utf8ByteSize_eq_zero_iff.mp (by omega))

omit [Double D] in
theorem roleStructName_ne (role : String) : roleStructName role ≠ role := append_ne_right (by decide)

theorem roleBound_apply (f : Frame D) (parent : Context D) (hrole : role ≠ "")
    (hdot : ∀ root field, role.splitOn "." ≠ [root, field])
    (hcount : Double.gt (Double.ofNat members.length : D) Double.zero = true)
    (hsize : Double.toSize (Double.ofNat members.length : D) = members.length) :
    RoleBound (Engine.Setting.apply f (.role role members) :: parent) role members := by
  have hnamed : ¬ (role == "") = true := by simpa using hrole
  have hstruct : (f.setStruct (roleStructName role) (Engine.roleStruct members)).structs.lookup (roleStructName role) =
      some (Engine.roleStruct members) := AList.lookup_insert _
  -- with one member the role is a parameter as well, and setting it drops a struct of the role's own name only
  have hsingle : ∀ v, members = [v] → Engine.Setting.apply f (.role role members) =
      (f.setStruct (roleStructName role) (Engine.roleStruct members)).setParam role v := by
    rintro v rfl
    exact if_neg hnamed
  have hseveral : (∀ v, members ≠ [v]) → Engine.Setting.apply f (.role role members) =
      f.setStruct (roleStructName role) (Engine.roleStruct members) := by
    intro hne
    rcases members with _ | ⟨v, _ | ⟨w, rest⟩⟩
    · exact if_neg hnamed
    · exact absurd rfl (hne v)
    · exact if_neg hnamed
  refine ⟨loadRoleBinding_roleStruct ?_ hcount hsize, fun v hv => ?_⟩
  · rw [Context.getStruct]
    by_cases hone : ∃ v, members = [v]
    · obtain ⟨v, hv⟩ := hone
      rw [hsingle v hv]
      have hkept : ((f.setStruct (roleStructName role) (Engine.roleStruct members)).setParam role v).structs.lookup
          (roleStructName role) = some (Engine.roleStruct members) :=
        (AList.lookup_erase_ne (roleStructName_ne role)).trans hstruct
      rw [hkept]
      rfl
    · rw [hseveral fun v hv => hone ⟨v, hv⟩, hstruct]
      rfl
  · rw [hsingle v hv]
    refine getParamTyped_setParam _ parent role v ?_
    unfold Frame.dottedParam
    split
    · rename_i root field hsplit
      exact absurd hsplit (hdot root field)
    · rfl

variable {eval : Ast D → Context D → Except Error (Value D)} {evalNumber : Ast D → Context D → Except Error D}

theorem evalExpanded_expand (agg : Aggregate) {e : Ast D}
    (hbound : RoleBound ctx role members) (hseveral : 1 < members.length) (hreached : role ∈ reachedRoles e)
    (honly : ∀ q ∈ roles e, expandable ctx q = true → q = role) :
    evalExpanded eval agg.name e ctx = agg.aggregate eval e (memberContexts ctx role members) := by
  have hexpandable : expandable ctx role = true := by
    unfold expandable
    rw [hbound.binding]
    simpa using hseveral
  have hcollected : collectFreeRoles ctx e [] = [role] := by
    rw [collectFreeRoles_eq, foldl_collect hexpandable (fun q hq => honly q (reachedRoles_subset e hq)) (.inl rfl),
      if_pos hreached]
  have hcontexts : memberContexts ctx role members = members.map (overlay ctx role) := if_neg (by omega)
  have hsome : members.isEmpty = false := by
    cases members with
    | nil => simp at hseveral
    | cons v members => rfl
  unfold evalExpanded Aggregate.aggregate
  rw [hcollected, hcontexts, List.mapM_map]
  simp only [hbound.binding, hsome, Bool.false_eq_true, if_false]
  change (members.mapM (eval e ∘ overlay ctx role) >>= _) = _
  cases hresults : members.mapM (eval e ∘ overlay ctx role) with
  | error err => rfl
  | ok results =>
    have hne : results ≠ [] := by
      rintro rfl
      have hnil := List.forall₂_nil_right_iff.mp (Aggregate.mapM_ok hresults)
      rw [hnil] at hseveral
      simp at hseveral
    exact agg.evalFoldedResults_eq hne

theorem evalExpanded_single (fn : String) {v : D} {e : Ast D}
    (hbound : RoleBound ctx role [v]) (honly : ∀ q ∈ roles e, expandable ctx q = true → q = role) :
    evalExpanded eval fn e ctx = eval e ctx := by
  have hsingle : expandable ctx role = false := by
    unfold expandable
    rw [hbound.binding]
    rfl
  have hnone : ∀ q ∈ reachedRoles e, expandable ctx q = false := by
    intro q hq
    cases hq' : expandable ctx q with
    | false => rfl
    | true =>
      rw [honly q (reachedRoles_subset e hq) hq', hsingle] at hq'
      cases hq'
  unfold evalExpanded
  rw [collectFreeRoles_eq, foldl_collect_none hnone]

theorem fold_single (agg : Aggregate) (hmean : ∀ d : D, SameNumber d (Double.div (Double.add Double.zero d) (Double.ofNat 1)))
    (v : Value D) : SameResult (.ok v) (agg.fold [v]) ↔ v.type = agg.type := by
  constructor
  · intro hsame
    by_contra htype
    obtain ⟨err, herr⟩ := (agg.fold_error_iff (List.cons_ne_nil v [])).mpr ⟨[], v, [], rfl, by simp, htype⟩
    rw [herr] at hsame
    rcases hsame with heq | ⟨a, b, -, heq, -⟩ <;> cases heq
  · intro htype
    have hnumber : agg.type = .number → ∃ d, v = .number d := by
      intro hagg
      rw [hagg] at htype
      cases v <;> simp [Value.type] at htype ⊢
    have hbool : agg.type = .bool → ∃ b, v = .bool b := by
      intro hagg
      rw [hagg] at htype
      cases v <;> simp [Value.type] at htype ⊢
    cases agg with
    | avg =>
      obtain ⟨d, rfl⟩ := hnumber rfl
      exact .inr ⟨d, _, rfl, rfl, hmean d⟩
    | any =>
      obtain ⟨b, rfl⟩ := hbool rfl
      cases b <;> exact .inl rfl
    | all =>
      obtain ⟨b, rfl⟩ := hbool rfl
      cases b <;> exact .inl rfl
    | min =>
      obtain ⟨d, rfl⟩ := hnumber rfl
      exact .inl rfl
    | max =>
      obtain ⟨d, rfl⟩ := hnumber rfl
      exact .inl rfl

/-- Basket aggregates. With one member an aggregate is the fold of its result exactly when the result, if there is one,
    has the type of the aggregate. With several it is the fold of the results where the role stands outside arrays,
    records and bases of field accesses. A fold fails when the expression fails for a member or has a result of the wrong
    type before the fold is decided. -/
theorem basketEvalCall_fold (agg : Aggregate) {ctx : Context D} {role : String} {members : List D} {e : Ast D}
    (argNames : List (Option String)) (hbound : RoleBound ctx role members) (hne : members ≠ [])
    (honly : ∀ q ∈ roles e, expandable ctx q = true → q = role)
    (hmean : ∀ d : D, SameNumber d (Double.div (Double.add Double.zero d) (Double.ofNat 1))) :
    (members.length = 1 → (SameResult (basketEvalCall eval evalNumber (.call agg.name [e] argNames) ctx)
      (agg.aggregate eval e (memberContexts ctx role members)) ↔ ∀ v, eval e ctx = .ok v → v.type = agg.type)) ∧
    (1 < members.length → role ∈ reachedRoles e → SameResult (basketEvalCall eval evalNumber (.call agg.name [e] argNames) ctx)
      (agg.aggregate eval e (memberContexts ctx role members))) ∧
    ((∃ err, agg.aggregate eval e (memberContexts ctx role members) = .error err) ↔
      (∃ c ∈ memberContexts ctx role members, ∃ err, eval e c = .error err) ∨
        ∃ before v after, (memberContexts ctx role members).mapM (eval e) = .ok (before ++ v :: after) ∧
          (∀ u ∈ before, agg.undecided u = true) ∧ v.type ≠ agg.type) := by
  have hcall : basketEvalCall eval evalNumber (.call agg.name [e] argNames) ctx = evalExpanded eval agg.name e ctx := by
    cases agg <;> rfl
  rw [hcall]
  refine ⟨fun hone => ?_, fun hseveral hreached => ?_, ?_⟩
  · obtain ⟨v, rfl⟩ := List.length_eq_one_iff.mp hone
    have hcontexts : memberContexts ctx role [v] = [ctx] := rfl
    rw [evalExpanded_single agg.name hbound honly, hcontexts]
    cases hresult : eval e ctx with
    | error err =>
      have hfails : agg.aggregate eval e [ctx] = .error err := by
        simp [Aggregate.aggregate, hresult, bind, Except.bind]
      rw [hfails]
      exact ⟨fun _ v hv => (by cases hv), fun _ => .inl rfl⟩
    | ok w =>
      have hfold : agg.aggregate eval e [ctx] = agg.fold [w] := by
        simp [Aggregate.aggregate, hresult, bind, Except.bind, pure, Except.pure]
      rw [hfold, fold_single agg hmean]
      exact ⟨fun htype v hv => by cases hv; exact htype, fun h => h w rfl⟩
  · exact .inl (evalExpanded_expand agg hbound hseveral hreached honly)
  · refine agg.aggregate_error_iff ?_
    unfold memberContexts
    split
    · exact List.cons_ne_nil _ _
    · simpa using hne

end

def plainEval (e : Ast Int) (ctx : Context Int) : Except Error (Value Int) := (Eval.evalAst {} 2 e ctx).map (·.1)

def plainNumber (e : Ast Int) (ctx : Context Int) : Except Error Int := do
  Eval.requireNumber (← plainEval e ctx) "Expression did not evaluate to double"

def roleContext (members : List Int) : Context Int := [Engine.Setting.apply {} (.role "r" members)]

theorem splitOn_r (root field : String) : "r".splitOn "." ≠ [root, field] := by
  unfold String.splitOn
  rw [if_neg (by decide), String.splitOnAux, if_neg (by decide), if_neg (by decide), String.splitOnAux, if_pos (by decide)]
  simp

theorem roleContext_bound {members : List Int} (hne : members ≠ []) : RoleBound (roleContext members) "r" members := by
  refine roleBound_apply {} [] (by decide) splitOn_r ?_ rfl
  have hpos : 0 < members.length := List.length_pos_iff.mpr hne
  show decide ((0 : Int) < members.length) = true
  simpa using hpos

theorem avg_pair : SameResult (basketEvalCall plainEval plainNumber (.call "avg" [.param "r"] []) (roleContext [4, 8]))
    (Aggregate.avg.aggregate plainEval (.param "r") (memberContexts (roleContext [4, 8]) "r" [4, 8])) := by
  refine (basketEvalCall_fold .avg [] (roleContext_bound (by decide)) (by decide) ?_ ?_).2.1 (by decide) (by decide)
  · intro q hq _
    simpa [roles] using hq
  · intro d
    refine .inl ?_
    show (d == Int.tdiv (0 + d) 1) = true
    simp

theorem plainEval_positive : plainEval (.binary .gt (.param "r") (.number 0)) (roleContext [5]) = .ok (.bool true) := by
  have hget : (Eval.memoEnter (roleContext [5])).getParamTyped "r" = some (.number 5) := by
    refine getParamTyped_setParam
      { Frame.setStruct {} (roleStructName "r") (Engine.roleStruct [5]) with evalMemoDepth := 1 } [] "r" 5 ?_
    unfold Frame.dottedParam
    split
    · rename_i root field hsplit
      exact absurd hsplit (splitOn_r root field)
    · rfl
  have hparam : Eval.evalNode {} (Eval.evalDepth {} 1) (.param "r") (Eval.memoEnter (roleContext [5])) =
      .ok (.number 5, Eval.memoEnter (roleContext [5])) := by
    refine (Stateful.bind_apply_ok rfl).trans ?_
    rw [hget]
    rfl
  have hnode : Eval.evalDepth {} 2 (.binary .gt (.param "r") (.number 0)) (Eval.memoEnter (roleContext [5])) =
      .ok (.bool true, Eval.memoEnter (roleContext [5])) :=
    (Stateful.bind_apply_ok hparam).trans rfl
  show ((Eval.evalAstValue {} 2 _ (roleContext [5])).map (·.1) : Except Error (Value Int)) = _
  unfold Eval.evalAstValue
  rw [hnode]
  rfl

theorem avg_single : ¬ ∀ (agg : Aggregate) (members : List Int) (e : Ast Int), members ≠ [] →
    RoleBound (roleContext members) "r" members → roles e = ["r"] →
    SameResult (basketEvalCall plainEval plainNumber (.call agg.name [e] []) (roleContext members))
      (agg.aggregate plainEval e (memberContexts (roleContext members) "r" members)) := by
  intro h
  have hsame := h .avg [5] (.binary .gt (.param "r") (.number 0)) (by decide) (roleContext_bound (by decide)) rfl
  have hcall : basketEvalCall plainEval plainNumber (.call "avg" [.binary .gt (.param "r") (.number 0)] [])
      (roleContext [5]) = .ok (.bool true) := by
    refine (evalExpanded_single "avg" (roleContext_bound (List.cons_ne_nil _ _)) fun q hq _ => ?_).trans plainEval_positive
    simpa [roles] using hq
  have hfold : Aggregate.avg.aggregate plainEval (.binary .gt (.param "r") (.number 0))
      (memberContexts (roleContext [5]) "r" [5]) = .error Aggregate.avg.typeError := by
    show ([roleContext [5]].mapM (plainEval (.binary .gt (.param "r") (.number 0))) >>= _) = _
    rw [List.mapM_cons, plainEval_positive]
    rfl
  have hcall' : SameResult (.ok (.bool true)) (.error Aggregate.avg.typeError : Except Error (Value Int)) := by
    rw [← hcall, ← hfold]
    exact hsame
  rcases hcall' with heq | ⟨a, b, heq, -⟩ <;> cases heq

end Cxpr.Basket
