import Cxpr.Ast
import Cxpr.Context

/-! The function registry (`src/registry`, `src/call/args.c`): its entries, the lookup by name and the ordering of
    named arguments. Function pointers are Lean functions with their userdata applied. -/

namespace Cxpr

/-- The native scalar adapter of an entry (`native_kind` with `native_scalar`). -/
inductive NativeScalar (D : Type) where
  | none
  | nullary (f : D)
  | unary (f : D → D)
  | binary (f : D → D → D)
  | ternary (f : D → D → D → D)

abbrev AstFunc (D : Type) := Ast D → Context D → Except Error (Value D)

/-- `cxpr_func_entry`. A parameter without fields in `definedParamFields` is a scalar one. -/
structure FuncEntry (D : Type) where
  name : String
  syncFunc : Option (List D → D) := none
  valueFunc : Option (List (Value D) → Value D) := none
  typedFunc : Option (List (Value D) → Value D) := none
  astFunc : Option (AstFunc D) := none
  astFuncHandler : Option (AstFunc D) := none
  structProducer : Option (List D → List (Value D)) := none
  modelProducer : Option (AstFunc D) := none
  native : NativeScalar D := .none
  minArgs : Nat := 0
  maxArgs : Nat := 0
  paramNames : List String := []
  argTypes : Option (List ValueType) := none
  returnType : Option ValueType := none
  structFields : Option (List String) := none
  structArgc : Nat := 0
  fieldsPerArg : Nat := 0
  definedBody : Option (Ast D) := none
  definedParamNames : List String := []
  definedParamFields : List (List String) := []
  definedReturnFields : List (String × Ast D) := []

/-- An index capability as `cxpr_registry_select_index_capability` hands it out: the declared result type and the
    resolver, applied to the target, the offset and the context. -/
structure IndexCapability (D : Type) where
  resultType : ValueType
  resolve : Ast D → Int → Context D → Except Error (Value D)

/-- `cxpr_registry`, the parts the evaluators read. `selectIndexCapability` is the answer of the capability table for
    a target, `lookbackResolver` the callback for `target[index]`, whose `none` declines. -/
structure Registry (D : Type) where
  entries : List (FuncEntry D) := []
  hasIndexCapabilities : Bool := false
  selectIndexCapability : Ast D → Except Error (Option (IndexCapability D)) := fun _ => .ok none
  lookbackResolver : Option (Ast D → Ast D → Context D → Except Error (Option (Value D))) := none

namespace Registry
variable {D : Type}

def find (reg : Registry D) (name : String) : Option (FuncEntry D) := reg.entries.find? (·.name == name)

end Registry

def FuncEntry.entryParamNames {D : Type} (entry : FuncEntry D) : List String :=
  if entry.definedParamNames.isEmpty then entry.paramNames else entry.definedParamNames

def maxCallArgs : Nat := 32

def maxParamNames : Nat := 64

/-! ### Argument binding

The binding only looks at the names, so it is stated for arguments of any type. -/

section
variable {α : Type}

def namedArgs (args : List α) (argNames : List (Option String)) : List (Option String × α) :=
  args.mapIdx fun i a => ((argNames[i]?).join, a)

def callParamNameMatches (paramName argName : String) : Bool :=
  paramName == argName ||
  (paramName == "value" && argName == "condition") ||
  (paramName == "mult" && argName == "multiplier") ||
  (paramName == "multiplier" && argName == "mult") ||
  (paramName == "samples" && argName == "bars")

/-- One candidate of `cxpr_call_bind_named_window`: the slots filled from a window of parameter names. -/
def fillWindow (window : List String) :
    List (Option String × α) → Bool → Nat → List (Option α) → Option (List (Option α))
  | [], _, _, slots => some slots
  | (none, a) :: rest, seenNamed, positional, slots =>
    if seenNamed || slots.length ≤ positional then none
    else fillWindow window rest false (positional + 1) (slots.set positional (some a))
  | (some n, a) :: rest, _, positional, slots =>
    match window.findIdx? (callParamNameMatches · n) with
    | none => none
    | some j => if (slots[j]?).join.isSome then none else fillWindow window rest true positional (slots.set j (some a))

def callBindNamedWindow (params : List String) (args : List (Option String × α)) : Option (List α) :=
  if params.length < args.length then none
  else (List.range (params.length - args.length + 1)).findSome? fun start =>
    (fillWindow ((params.drop start).take args.length) args false 0 (List.replicate args.length none)).bind
      fun slots => slots.mapM id

/-- The second loop of `cxpr_call_bind_args`, over all parameter names. -/
def fillPrefixed (params : List String) :
    List (Option String × α) → Bool → Nat → List (Option α) → Except Error (List (Option α))
  | [], _, _, slots => .ok slots
  | (none, a) :: rest, seenNamed, positional, slots =>
    if seenNamed then .error ⟨.syntaxError, "Positional arguments cannot follow named arguments"⟩
    else if slots.length ≤ positional then .error ⟨.wrongArity, "Wrong number of arguments"⟩
    else fillPrefixed params rest false (positional + 1) (slots.set positional (some a))
  | (some n, a) :: rest, _, positional, slots =>
    match params.findIdx? (callParamNameMatches · n) with
    | none => .error ⟨.syntaxError, "Unknown named argument"⟩
    | some j =>
      if (slots[j]?).join.isSome then .error ⟨.syntaxError, "Duplicate argument"⟩
      else fillPrefixed params rest true positional (slots.set j (some a))

/-- `cxpr_call_bind_args`: the arguments in parameter order. -/
def callBindArgs {D : Type} (entry : FuncEntry D) (args : List α) (argNames : List (Option String)) :
    Except Error (List α) :=
  if maxCallArgs < args.length then .error ⟨.wrongArity, "Too many function arguments"⟩
  else if !Ast.callUsesNamedArgs args.length argNames then .ok args
  else
    let params := entry.entryParamNames
    if params.isEmpty || maxParamNames < params.length then
      .error ⟨.syntaxError, "Named arguments are not supported for this function"⟩
    else
      match callBindNamedWindow params (namedArgs args argNames) with
      | some ordered => .ok ordered
      | none => do
        let slots ← fillPrefixed params (namedArgs args argNames) false 0 (List.replicate params.length none)
        match (slots.take args.length).mapM id with
        | some ordered =>
          if ordered.length = args.length then .ok ordered
          else .error ⟨.syntaxError, "Named arguments must fill a positional prefix"⟩
        | none => .error ⟨.syntaxError, "Named arguments must fill a positional prefix"⟩

variable {slots : List (Option α)}

theorem mapM_id_eq_some {ordered : List α} (h : slots.mapM id = some ordered) :
    slots = ordered.map some := by
  induction slots generalizing ordered with
  | nil => simp at h; simp [h]
  | cons slot slots ih =>
    simp only [List.mapM_cons, id, Option.bind_eq_bind, Option.bind_eq_some_iff, Option.pure_def,
      Option.some.injEq] at h
    obtain ⟨a, rfl, rest, hrest, rfl⟩ := h
    simp [ih hrest]

theorem mem_namedArgs {args : List α} {argNames : List (Option String)} {x : Option String × α}
    (h : x ∈ namedArgs args argNames) : x.2 ∈ args := by
  obtain ⟨i, hi, rfl⟩ := List.mem_mapIdx.mp h
  exact List.getElem_mem hi

theorem fillWindow_mem {window : List String} {args : List (Option String × α)} {seen : Bool} {k : Nat}
    {slots' : List (Option α)} (h : fillWindow window args seen k slots = some slots') :
    slots'.length = slots.length ∧ ∀ a, some a ∈ slots' → some a ∈ slots ∨ ∃ x ∈ args, x.2 = a := by
  induction args generalizing seen k slots with
  | nil =>
    cases h
    exact ⟨rfl, fun a ha => .inl ha⟩
  | cons arg args ih =>
    obtain ⟨n?, v⟩ := arg
    have step : ∀ {j seen k}, fillWindow window args seen k (slots.set j (some v)) = some slots' →
        slots'.length = slots.length ∧ ∀ a, some a ∈ slots' → some a ∈ slots ∨ ∃ x ∈ (n?, v) :: args, x.2 = a := by
      intro j seen k hj
      obtain ⟨hlen, hmem⟩ := ih hj
      refine ⟨by simpa using hlen, fun a ha => ?_⟩
      rcases hmem a ha with hset | ⟨x, hx, rfl⟩
      · rcases List.mem_or_eq_of_mem_set hset with hold | hnew
        · exact .inl hold
        · cases hnew
          exact .inr ⟨(n?, v), by simp, rfl⟩
      · exact .inr ⟨x, by simp [hx], rfl⟩
    cases n? with
    | none =>
      simp only [fillWindow] at h
      split at h
      · cases h
      · exact step h
    | some n =>
      simp only [fillWindow] at h
      split at h
      · cases h
      · split at h
        · cases h
        · exact step h

theorem fillPrefixed_mem {params : List String} {args : List (Option String × α)} {seen : Bool} {k : Nat}
    {slots' : List (Option α)} (h : fillPrefixed params args seen k slots = .ok slots') :
    ∀ a, some a ∈ slots' → some a ∈ slots ∨ ∃ x ∈ args, x.2 = a := by
  induction args generalizing seen k slots with
  | nil =>
    cases h
    exact fun a ha => .inl ha
  | cons arg args ih =>
    obtain ⟨n?, v⟩ := arg
    have step : ∀ {j seen k}, fillPrefixed params args seen k (slots.set j (some v)) = .ok slots' →
        ∀ a, some a ∈ slots' → some a ∈ slots ∨ ∃ x ∈ (n?, v) :: args, x.2 = a := by
      intro j seen k hj a ha
      rcases ih hj a ha with hset | ⟨x, hx, rfl⟩
      · rcases List.mem_or_eq_of_mem_set hset with hold | hnew
        · exact .inl hold
        · cases hnew
          exact .inr ⟨(n?, v), by simp, rfl⟩
      · exact .inr ⟨x, by simp [hx], rfl⟩
    cases n? with
    | none =>
      simp only [fillPrefixed] at h
      split at h
      · cases h
      · split at h
        · cases h
        · exact step h
    | some n =>
      simp only [fillPrefixed] at h
      split at h
      · cases h
      · split at h
        · cases h
        · exact step h

theorem callBindArgs_mem {D : Type} {entry : FuncEntry D} {args ordered : List α} {argNames : List (Option String)}
    (h : callBindArgs entry args argNames = .ok ordered) : ordered.length = args.length ∧ ∀ a ∈ ordered, a ∈ args := by
  unfold callBindArgs at h
  split at h
  · cases h
  split at h
  · cases h
    exact ⟨rfl, fun a ha => ha⟩
  simp only at h
  split at h
  · cases h
  split at h
  · rename_i hwindow
    cases h
    unfold callBindNamedWindow at hwindow
    split at hwindow
    · cases hwindow
    obtain ⟨start, -, hfill⟩ := List.exists_of_findSome?_eq_some hwindow
    obtain ⟨slots, hslots, hordered⟩ := Option.bind_eq_some_iff.mp hfill
    obtain ⟨hlen, hmem⟩ := fillWindow_mem hslots
    have heq := mapM_id_eq_some hordered
    refine ⟨by simpa [heq, namedArgs] using hlen, fun a ha => ?_⟩
    rcases hmem a (by simp [heq, ha]) with hnone | ⟨x, hx, rfl⟩
    · simp at hnone
    · exact mem_namedArgs hx
  · obtain ⟨slots, hslots, h⟩ := bind_eq_ok.mp h
    split at h
    · rename_i hordered
      split at h
      · rename_i hlen
        cases h
        have heq := mapM_id_eq_some hordered
        refine ⟨hlen, fun a ha => ?_⟩
        have hin : some a ∈ slots := List.mem_of_mem_take (by rw [heq]; simp [ha])
        rcases fillPrefixed_mem hslots a hin with hnone | ⟨x, hx, rfl⟩
        · simp at hnone
        · exact mem_namedArgs hx
      · cases h
    · cases h

variable {β : Type}

theorem namedArgs_map (f : α → β) (args : List α) (argNames : List (Option String)) :
    namedArgs (args.map f) argNames = (namedArgs args argNames).map fun x => (x.1, f x.2) := by
  refine List.ext_getElem? fun i => ?_
  simp only [namedArgs, List.getElem?_mapIdx, List.getElem?_map, Option.map_map]
  rfl

theorem set_map_some (f : α → β) (slots : List (Option α)) (i : Nat) (a : α) :
    (slots.map (Option.map f)).set i (some (f a)) = (slots.set i (some a)).map (Option.map f) := by
  rw [List.map_set]
  rfl

theorem join_map_isSome (f : α → β) (slots : List (Option α)) (i : Nat) :
    ((slots.map (Option.map f))[i]?).join.isSome = (slots[i]?).join.isSome := by
  rw [List.getElem?_map]
  cases slots[i]? with
  | none => rfl
  | some slot => cases slot <;> rfl

theorem fillWindow_map (f : α → β) (window : List String) (args : List (Option String × α)) (seen : Bool) (k : Nat)
    (slots : List (Option α)) :
    fillWindow window (args.map fun x => (x.1, f x.2)) seen k (slots.map (Option.map f)) =
      (fillWindow window args seen k slots).map (List.map (Option.map f)) := by
  fun_induction fillWindow window args seen k slots with
  | case1 => rfl
  | case2 a rest seen k slots hfull =>
    simp only [List.map_cons, fillWindow, List.length_map, hfull, if_true, Option.map_none]
  | case3 a rest seen k slots hroom ih =>
    simp only [List.map_cons, fillWindow, List.length_map, hroom, set_map_some, ih]
    simp
  | case4 n a rest seen k slots hnone => simp [fillWindow, hnone]
  | case5 n a rest seen k slots j hj htaken =>
    simp only [List.map_cons, fillWindow, hj, join_map_isSome, htaken, if_true, Option.map_none]
  | case6 n a rest seen k slots j hj hfree ih =>
    simp only [List.map_cons, fillWindow, hj, join_map_isSome, hfree, set_map_some, ih]
    simp

theorem mapM_id_map (f : α → β) (slots : List (Option α)) :
    (slots.map (Option.map f)).mapM id = (slots.mapM id).map (List.map f) := by
  induction slots with
  | nil => rfl
  | cons slot slots ih =>
    cases slot with
    | none => rfl
    | some a =>
      rw [List.map_cons, List.mapM_cons, List.mapM_cons, ih]
      cases slots.mapM id <;> rfl

theorem callBindNamedWindow_map (f : α → β) (params : List String) (args : List (Option String × α)) :
    callBindNamedWindow params (args.map fun x => (x.1, f x.2)) = (callBindNamedWindow params args).map (List.map f) := by
  unfold callBindNamedWindow
  rw [List.length_map]
  split
  · rfl
  · have hone : ∀ start, ((fillWindow ((params.drop start).take args.length) (args.map fun x => (x.1, f x.2)) false 0
        (List.replicate args.length none)).bind fun slots => slots.mapM id) =
        ((fillWindow ((params.drop start).take args.length) args false 0 (List.replicate args.length none)).bind
          fun slots => slots.mapM id).map (List.map f) := by
      intro start
      have hblank : List.replicate args.length (none : Option β) =
          (List.replicate args.length (none : Option α)).map (Option.map f) := by simp
      rw [hblank, fillWindow_map]
      cases fillWindow ((params.drop start).take args.length) args false 0 (List.replicate args.length none) with
      | none => rfl
      | some slots => exact mapM_id_map f slots
    simp only [hone]
    exact List.map_findSome?.symm

theorem fillPrefixed_map (f : α → β) (params : List String) (args : List (Option String × α)) (seen : Bool) (k : Nat)
    (slots : List (Option α)) :
    fillPrefixed params (args.map fun x => (x.1, f x.2)) seen k (slots.map (Option.map f)) =
      (fillPrefixed params args seen k slots).map (List.map (Option.map f)) := by
  fun_induction fillPrefixed params args seen k slots with
  | case1 => rfl
  | case2 a rest k slots => rfl
  | case3 a rest seen k slots hseen hfull => simp [fillPrefixed, hseen, hfull, Except.map]
  | case4 a rest seen k slots hseen hroom ih =>
    simp only [List.map_cons, fillPrefixed, List.length_map, hseen, hroom, set_map_some, ih]
    simp
  | case5 n a rest seen k slots hnone => simp [fillPrefixed, hnone, Except.map]
  | case6 n a rest seen k slots j hj htaken =>
    simp only [List.map_cons, fillPrefixed, hj, join_map_isSome, htaken, if_true, Except.map]
  | case7 n a rest seen k slots j hj hfree ih =>
    simp only [List.map_cons, fillPrefixed, hj, join_map_isSome, hfree, set_map_some, ih]
    simp

theorem callBindArgs_map {D : Type} (f : α → β) (entry : FuncEntry D) (args : List α) (argNames : List (Option String)) :
    callBindArgs entry (args.map f) argNames = (callBindArgs entry args argNames).map (List.map f) := by
  unfold callBindArgs
  rw [List.length_map, namedArgs_map]
  split
  · rfl
  split
  · rfl
  dsimp only
  split
  · rfl
  rw [callBindNamedWindow_map]
  cases callBindNamedWindow entry.entryParamNames (namedArgs args argNames) with
  | some ordered => rfl
  | none =>
    have hblank : List.replicate entry.entryParamNames.length (none : Option β) =
        (List.replicate entry.entryParamNames.length (none : Option α)).map (Option.map f) := by simp
    simp only [Option.map_none]
    rw [hblank, fillPrefixed_map]
    cases fillPrefixed entry.entryParamNames (namedArgs args argNames) false 0
        (List.replicate entry.entryParamNames.length none) with
    | error e => rfl
    | ok slots =>
      simp only [Except.map, bind, Except.bind, ← List.map_take, mapM_id_map]
      cases (slots.take args.length).mapM id with
      | none => rfl
      | some ordered =>
        simp only [Option.map_some, List.length_map]
        split <;> rfl

end
end Cxpr
