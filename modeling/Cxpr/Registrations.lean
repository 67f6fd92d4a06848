import Cxpr.Eval.Alike

/-! Registrations (`src/registry/add.c`, `src/registry/define.c`). An entry is a bag of callbacks, signature data and bodies,
    and each kind of registration clears its own list of them on an entry that exists. -/

namespace Cxpr
variable {D U : Type}

/-- A `cxpr_func_entry` as the registry keeps it: its callbacks share the userdata of the entry, except for the handler, which
    has its own. -/
structure Slot (D U : Type) where
  name : String
  syncFunc : Option (List D → Option U → D) := none
  valueFunc : Option (List (Value D) → Option U → Value D) := none
  typedFunc : Option (List (Value D) → Option U → Value D) := none
  astFunc : Option (Option U → AstFunc D) := none
  structProducer : Option (List D → Option U → List (Value D)) := none
  modelProducer : Option (AstFunc D) := none
  astFuncHandler : Option (AstFunc D) := none
  native : NativeScalar D := .none
  minArgs : Nat := 0
  maxArgs : Nat := 0
  paramNames : List String := []
  argTypes : Option (List ValueType) := none
  returnType : Option ValueType := none
  userdata : Option U := none
  structFields : Option (List String) := none
  fieldsPerArg : Nat := 0
  structArgc : Nat := 0
  definedBody : Option (Ast D) := none
  definedParamNames : List String := []
  definedParamFields : List (List String) := []
  definedReturnFields : List (String × Ast D) := []

namespace Slot

def entry (s : Slot D U) : FuncEntry D where
  name := s.name
  syncFunc := s.syncFunc.map fun f args => f args s.userdata
  valueFunc := s.valueFunc.map fun f args => f args s.userdata
  typedFunc := s.typedFunc.map fun f args => f args s.userdata
  astFunc := s.astFunc.map fun f => f s.userdata
  astFuncHandler := s.astFuncHandler
  structProducer := s.structProducer.map fun f args => f args s.userdata
  modelProducer := s.modelProducer
  native := s.native
  minArgs := s.minArgs
  maxArgs := s.maxArgs
  paramNames := s.paramNames
  argTypes := s.argTypes
  returnType := s.returnType
  structFields := s.structFields
  structArgc := s.structArgc
  fieldsPerArg := s.fieldsPerArg
  definedBody := s.definedBody
  definedParamNames := s.definedParamNames
  definedParamFields := s.definedParamFields
  definedReturnFields := s.definedReturnFields

/-- `cxpr_registry_free_struct_fields`. -/
def freeStructFields (s : Slot D U) : Slot D U :=
  if s.structFields.isNone then s else { s with structFields := none, fieldsPerArg := 0, structArgc := 0 }

def clearOwnedEntry (s : Slot D U) : Slot D U :=
  { s.freeStructFields with
    paramNames := []
    argTypes := none
    returnType := none
    definedBody := none
    definedReturnFields := []
    definedParamFields := []
    definedParamNames := []
    userdata := none
    modelProducer := none
    astFuncHandler := none }

def replaceEntry (s : Slot D U) : Slot D U :=
  { s.clearOwnedEntry with
    syncFunc := none
    valueFunc := none
    typedFunc := none
    astFunc := none
    structProducer := none
    native := .none
    argTypes := none
    paramNames := []
    structFields := none
    fieldsPerArg := 0
    structArgc := 0
    definedBody := none
    definedParamNames := []
    definedParamFields := []
    returnType := none
    userdata := none }

end Slot

abbrev Table (D U : Type) := List (Slot D U)

def Table.find (t : Table D U) (name : String) : Option (Slot D U) := List.find? (·.name == name) t

def Table.registry (base : Registry D) (t : Table D U) : Registry D := { base with entries := t.map Slot.entry }

/-- `cxpr_def_field_set_add`. -/
def addField (i : Nat) (sets : List (List String)) (field : String) : List (List String) :=
  sets.modify i fun fields => if field ∈ fields then fields else fields ++ [field]

mutual

def collectFields (params : List String) : Ast D → List (List String) → List (List String)
  | .fieldAccess object field, sets =>
    match params.findIdx? (· == object) with
    | some i => addField i sets field
    | none => sets
  | .fieldOf base _, sets => collectFields params base sets
  | .binary _ l r, sets => collectFields params r (collectFields params l sets)
  | .unary _ a, sets => collectFields params a sets
  | .index t i, sets => collectFields params i (collectFields params t sets)
  | .call _ args _, sets => collectFieldsList params args sets
  | .ternary c t e, sets => collectFields params e (collectFields params t (collectFields params c sets))
  | _, sets => sets

def collectFieldsList (params : List String) : List (Ast D) → List (List String) → List (List String)
  | [], sets => sets
  | a :: as, sets => collectFieldsList params as (collectFields params a sets)

end

def Table.calleeFields (t : Table D U) (name : String) (argc : Nat) : List (List String) :=
  match t.find name with
  | some s => if s.definedParamNames.length = argc then s.definedParamFields else []
  | none => []

def passFields (params : List String) (sets : List (List String)) (x : Ast D × List String) : List (List String) :=
  match x.1 with
  | .identifier name =>
    match params.findIdx? (· == name) with
    | some i => x.2.foldl (addField i) sets
    | none => sets
  | _ => sets

mutual

def collectTransitiveFields (callee : String → Nat → List (List String)) (params : List String) :
    Ast D → List (List String) → List (List String)
  | .call name args _, sets =>
    collectTransitiveFieldsList callee params args
      ((args.zip (callee name args.length)).foldl (passFields params) sets)
  | .binary _ l r, sets => collectTransitiveFields callee params r (collectTransitiveFields callee params l sets)
  | .unary _ a, sets => collectTransitiveFields callee params a sets
  | .index t i, sets => collectTransitiveFields callee params i (collectTransitiveFields callee params t sets)
  | .ternary c t e, sets =>
    collectTransitiveFields callee params e (collectTransitiveFields callee params t (collectTransitiveFields callee params c sets))
  | _, sets => sets

def collectTransitiveFieldsList (callee : String → Nat → List (List String)) (params : List String) :
    List (Ast D) → List (List String) → List (List String)
  | [], sets => sets
  | a :: as, sets => collectTransitiveFieldsList callee params as (collectTransitiveFields callee params a sets)

end

def Table.paramFields (t : Table D U) (params : List String) (bodies : List (Ast D)) : List (List String) :=
  bodies.foldl (fun sets body => collectTransitiveFields t.calleeFields params body (collectFields params body sets))
    (params.map fun _ => [])

/-- The functions that register. A definition is one that `cxpr_registry_define_fn` has parsed. -/
inductive Registration (D U : Type) where
  | numeric (name : String) (func : List D → Option U → D) (minArgs maxArgs : Nat) (userdata : Option U)
  | value (name : String) (func : List (Value D) → Option U → Value D) (minArgs maxArgs : Nat) (userdata : Option U)
  | typed (name : String) (func : List (Value D) → Option U → Value D) (minArgs maxArgs : Nat)
      (argTypes : Option (List ValueType)) (returnType : ValueType) (userdata : Option U)
  | ast (name : String) (func : Option U → AstFunc D) (minArgs maxArgs : Nat) (returnType : ValueType) (userdata : Option U)
  | astHandler (name : String) (func : AstFunc D) (minArgs maxArgs : Nat)
  | nullary (name : String) (func : D) (userdata : Option U)
  | unary (name : String) (func : D → D) (userdata : Option U)
  | binary (name : String) (func : D → D → D) (userdata : Option U)
  | ternary (name : String) (func : D → D → D → D) (userdata : Option U)
  | fn (name : String) (func : List D → Option U → D) (fields : List String) (structArgc : Nat) (userdata : Option U)
  | struct_ (name : String) (func : List D → Option U → List (Value D)) (minArgs maxArgs : Nat) (fields : List String)
      (userdata : Option U)
  | defineFn (name : String) (params : List String) (body : Ast D)
  | defineRecordFn (name : String) (params : List String) (fields : List (String × Ast D))

namespace Registration

def name : Registration D U → String
  | .numeric n _ _ _ _ | .value n _ _ _ _ | .typed n _ _ _ _ _ _ | .ast n _ _ _ _ _ | .astHandler n _ _ _ | .nullary n _ _
  | .unary n _ _ | .binary n _ _ | .ternary n _ _ | .fn n _ _ _ _ | .struct_ n _ _ _ _ _ | .defineFn n _ _
  | .defineRecordFn n _ _ => n

def maxDefinedParams : Nat := 16

def accepted : Registration D U → Bool
  | .fn _ _ fields structArgc _ => !fields.isEmpty && structArgc != 0
  | .struct_ _ _ _ _ fields _ => !fields.isEmpty
  | .defineFn _ params _ => params.length ≤ maxDefinedParams
  | .defineRecordFn _ params fields => !fields.isEmpty && params.length ≤ maxDefinedParams
  | _ => true

/-- `cxpr_registry_add_numeric`. -/
def addNumeric (func : List D → Option U → D) (minArgs maxArgs : Nat) (userdata : Option U) (s : Slot D U) : Slot D U :=
  { s with
    syncFunc := some func
    minArgs := minArgs
    maxArgs := maxArgs
    returnType := some .number
    userdata := userdata }

variable [Double D]

/-- What a registration makes of an entry that has been prepared for a new name; `t` is the registry. -/
def assign (t : Table D U) (s : Slot D U) : Registration D U → Slot D U
  | .numeric _ func minArgs maxArgs userdata => addNumeric func minArgs maxArgs userdata s
  | .value _ func minArgs maxArgs userdata =>
    { s with valueFunc := some func, minArgs, maxArgs, returnType := none, userdata }
  | .typed _ func minArgs maxArgs argTypes returnType userdata =>
    { s with typedFunc := some func, minArgs, maxArgs, argTypes, returnType := some returnType, userdata }
  | .ast _ func minArgs maxArgs returnType userdata =>
    { s with astFunc := some func, minArgs, maxArgs, returnType := some returnType, userdata }
  | .astHandler _ func minArgs maxArgs => { s with astFuncHandler := some func, minArgs, maxArgs }
  | .nullary _ f userdata => { addNumeric (fun _ _ => f) 0 0 userdata s with native := .nullary f }
  | .unary _ f userdata =>
    { addNumeric (fun args _ => f (args.getD 0 Double.zero)) 1 1 userdata s with native := .unary f }
  | .binary _ f userdata =>
    { addNumeric (fun args _ => f (args.getD 0 Double.zero) (args.getD 1 Double.zero)) 2 2 userdata s with
      native := .binary f }
  | .ternary _ f userdata =>
    { addNumeric (fun args _ => f (args.getD 0 Double.zero) (args.getD 1 Double.zero) (args.getD 2 Double.zero)) 3 3
        userdata s with
      native := .ternary f }
  | .fn _ func fields structArgc userdata =>
    { addNumeric func structArgc structArgc userdata s with
      structFields := some fields
      fieldsPerArg := fields.length
      structArgc := structArgc }
  | .struct_ _ func minArgs maxArgs fields userdata =>
    { s with
      structProducer := some func
      minArgs := minArgs
      maxArgs := maxArgs
      returnType := some .struct
      userdata := userdata
      structFields := some fields
      fieldsPerArg := fields.length }
  | .defineFn _ params body =>
    { s with
      minArgs := params.length
      maxArgs := params.length
      returnType := none
      definedBody := some body
      definedParamNames := params
      definedParamFields := t.paramFields params [body] }
  | .defineRecordFn _ params fields =>
    { s with
      syncFunc := none
      valueFunc := none
      typedFunc := none
      astFunc := none
      structProducer := none
      astFuncHandler := none
      native := .none
      minArgs := params.length
      maxArgs := params.length
      returnType := some .struct
      definedBody := none
      definedParamNames := params
      definedParamFields := t.paramFields params (fields.map (·.2))
      definedReturnFields := fields }

/-- What a registration makes of an entry of its name. `cxpr_registry_define_fn` keeps an AST function and a producer. -/
def update (t : Table D U) (s : Slot D U) : Registration D U → Slot D U
  | .astHandler _ func minArgs maxArgs =>
    { s with astFuncHandler := some func, minArgs := min minArgs s.minArgs, maxArgs := max maxArgs s.maxArgs }
  | .struct_ _ func minArgs maxArgs fields userdata =>
    let s := { s.freeStructFields with structProducer := some func }
    let s := if s.syncFunc.isNone && s.valueFunc.isNone && s.typedFunc.isNone then
        { s with minArgs := minArgs, maxArgs := maxArgs, returnType := some .struct, userdata := userdata }
      else s
    { s with structFields := some fields, fieldsPerArg := fields.length, structArgc := 0 }
  | .defineFn name params body =>
    assign t
      { s.clearOwnedEntry with
        syncFunc := none
        valueFunc := none
        typedFunc := none
        native := .none
        argTypes := none
        userdata := none }
      (.defineFn name params body)
  | .defineRecordFn name params fields => assign t s.clearOwnedEntry (.defineRecordFn name params fields)
  | r => assign t s.replaceEntry r

end Registration

section
variable [Double D]

def Table.register (t : Table D U) (r : Registration D U) : Table D U :=
  if r.accepted then
    match t.find r.name with
    | none => t ++ [r.assign t { name := r.name }]
    | some s => List.replaceF (fun x => if x.name == r.name then some (r.update t s) else none) t
  else t

def registerAll (rs : List (Registration D U)) : Table D U := rs.foldl Table.register []

variable {s : Slot D U}

omit [Double D] in
theorem Table.find_name {t : Table D U} {n : String} (h : t.find n = some s) : s.name = n := by
  simpa using List.find?_some h

theorem Registration.name_assign (t : Table D U) (s : Slot D U) (r : Registration D U) : (r.assign t s).name = s.name := by
  cases r <;> rfl

omit [Double D] in
theorem Slot.name_clearOwnedEntry (s : Slot D U) : s.clearOwnedEntry.name = s.name := by
  show s.freeStructFields.name = s.name
  unfold Slot.freeStructFields
  split <;> rfl

theorem Registration.name_update (t : Table D U) (s : Slot D U) (r : Registration D U) : (r.update t s).name = s.name := by
  cases r with
  | astHandler => rfl
  | struct_ name func minArgs maxArgs fields userdata =>
    have hfree : s.freeStructFields.name = s.name := s.name_clearOwnedEntry
    simp only [Registration.update]
    split <;> exact hfree
  | _ => exact (Registration.name_assign t _ _).trans s.name_clearOwnedEntry

omit [Double D] in
theorem find_replaceF {l : List (Slot D U)} {n : String} {s' : Slot D U} (h : List.find? (·.name == n) l = some s)
    (hname : s'.name = n) (m : String) :
    List.find? (·.name == m) (l.replaceF fun x => if x.name == n then some s' else none) =
      if m = n then some s' else List.find? (·.name == m) l := by
  induction l with
  | nil => cases h
  | cons x l ih =>
    rw [List.replaceF]
    by_cases hx : x.name = n
    · simp only [hx, beq_self_eq_true, if_true]
      by_cases hm : m = n
      · rw [if_pos hm, List.find?_cons_of_pos (by simp [hname, hm])]
      · rw [if_neg hm, List.find?_cons_of_neg (by simpa [hname] using Ne.symm hm),
          List.find?_cons_of_neg (by simpa [hx] using Ne.symm hm)]
    · have hl : List.find? (·.name == n) l = some s := by
        rwa [List.find?_cons_of_neg (by simpa using hx)] at h
      have hskip : (x.name == n) = false := beq_false_of_ne hx
      simp only [hskip, Bool.false_eq_true, if_false]
      by_cases hxm : x.name = m
      · have hm : m ≠ n := fun heq => hx (hxm.trans heq)
        rw [List.find?_cons_of_pos (by simpa using hxm), if_neg hm, List.find?_cons_of_pos (by simpa using hxm)]
      · rw [List.find?_cons_of_neg (by simpa using hxm), ih hl, List.find?_cons_of_neg (by simpa using hxm)]

def Registration.result (t : Table D U) (r : Registration D U) : Slot D U :=
  match t.find r.name with
  | none => r.assign t { name := r.name }
  | some s => r.update t s

theorem Table.find_register (t : Table D U) (r : Registration D U) (n : String) :
    (t.register r).find n = if r.accepted = true ∧ n = r.name then some (r.result t) else t.find n := by
  unfold Table.register
  by_cases haccepted : r.accepted = true
  · rw [if_pos haccepted]
    unfold Registration.result
    cases hfind : t.find r.name with
    | none =>
      have hname : (r.assign t { name := r.name }).name = r.name := r.name_assign t _
      show List.find? (·.name == n) (t ++ [r.assign t { name := r.name }]) = _
      rw [List.find?_append]
      by_cases hn : n = r.name
      · have hnone : List.find? (·.name == n) t = none := hn ▸ hfind
        rw [if_pos ⟨haccepted, hn⟩, hnone, Option.none_or, List.find?_cons_of_pos (by simp [hname, hn])]
      · rw [if_neg fun h => hn h.2, List.find?_cons_of_neg (by simpa [hname] using Ne.symm hn), List.find?_nil, Option.or_none]
        rfl
    | some s =>
      have hname : (r.update t s).name = r.name := (r.name_update t s).trans (Table.find_name hfind)
      simp only [haccepted, true_and]
      exact find_replaceF hfind hname n
  · rw [if_neg haccepted, if_neg fun h => haccepted h.1]

omit [Double D] in
def Registration.replaces (r : Registration D U) : Bool :=
  r.accepted && match r with
    | .astHandler _ _ _ _ | .struct_ _ _ _ _ _ _ => false
    | _ => true

omit [Double D] in
def Slot.Counted (s : Slot D U) : Prop := s.structFields = none → s.fieldsPerArg = 0 ∧ s.structArgc = 0

omit [Double D] in
def Registration.Clears (t : Table D U) : Registration D U → Prop
  | .defineFn name _ _ => ∀ s, t.find name = some s → s.astFunc = none ∧ s.structProducer = none
  | _ => True

omit [Double D] in
theorem Slot.freeStructFields_eq (h : s.Counted) :
    s.freeStructFields = { s with structFields := none, fieldsPerArg := 0, structArgc := 0 } := by
  unfold Slot.freeStructFields
  split
  · rename_i hnone
    have hnone' : s.structFields = none := by simpa using hnone
    obtain ⟨hfields, hargc⟩ := h hnone'
    cases s
    simp_all
  · rfl

theorem Registration.update_eq_assign {t : Table D U} {r : Registration D U} (hfind : t.find r.name = some s)
    (hcounted : s.Counted) (hreplaces : r.replaces = true) (hclears : r.Clears t) : r.update t s = r.assign t { name := r.name } := by
  have hname := Table.find_name hfind
  rw [← hname]
  cases r with
  | astHandler | struct_ => simp [Registration.replaces] at hreplaces
  | defineFn name params body =>
    obtain ⟨hast, hproducer⟩ := hclears s hfind
    simp only [Registration.update, Registration.assign, Slot.clearOwnedEntry, Slot.freeStructFields_eq hcounted, hast, hproducer]
  | defineRecordFn name params fields =>
    simp only [Registration.update, Registration.assign, Slot.clearOwnedEntry, Slot.freeStructFields_eq hcounted]
  | _ => 
    simp only [Registration.update, Registration.assign, Registration.addNumeric, Slot.replaceEntry, Slot.clearOwnedEntry, Slot.freeStructFields_eq hcounted]

end

end Cxpr
