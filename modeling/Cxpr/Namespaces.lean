import Cxpr.ContextWrites

/-! Variables and parameters have stores of their own but for structs: both kinds of write change `structs`, and both
    kinds of lookup read it. A write is invisible to the other namespace exactly when what it does there is. -/

namespace Cxpr
variable {D : Type}

abbrev Fields (D : Type) := List (String × Value D)

inductive ParamWrite (D : Type) where
  | setParam (name : String) (value : D)
  | setParamBool (name : String) (value : Bool)
  | setParamInt64 (name : String) (value : Int64)
  | setParamString (name : String) (value : String)
  | setParamValue (name : String) (value : Value D)

/-- One call that writes a variable: a setter of `Write`, `cxpr_context_set_struct`, or a write through a bound slot. -/
inductive VariableWrite (D : Type) where
  | write (w : Write D)
  | setStruct (name : String) (value : Fields D)
  | slotSet (name : String) (value : D)

/-- What a write does to its name in `structs`: nothing, or the entry that is there afterwards. -/
abbrev StructEffect (D : Type) := Option (Option (Fields D))

/-- The effect on `structs` of a setter that takes a value: the int64 setter of the parameters leaves it alone. -/
def structEffect (int64s : StructEffect D) : Value D → StructEffect D
  | .number _ | .bool _ | .string _ | .array _ => some none
  | .int64 _ => int64s
  | .struct s => some (some s)
  | .null | .timestamp _ | .duration _ => none

namespace ParamWrite

def name : ParamWrite D → String
  | .setParam n _ | .setParamBool n _ | .setParamInt64 n _ | .setParamString n _ | .setParamValue n _ => n

def value : ParamWrite D → Value D
  | .setParam _ d => .number d
  | .setParamBool _ b => .bool b
  | .setParamInt64 _ i => .int64 i
  | .setParamString _ s => .string s
  | .setParamValue _ v => v

def apply : ParamWrite D → Frame D → Frame D
  | .setParam n d, f => f.setParam n d
  | .setParamBool n b, f => f.setParamBool n b
  | .setParamInt64 n i, f => f.setParamInt64 n i
  | .setParamString n s, f => f.setParamString n s
  | .setParamValue n v, f => f.setParamValue n v

def structs (w : ParamWrite D) : StructEffect D := structEffect none w.value

end ParamWrite

namespace VariableWrite

def name : VariableWrite D → String
  | .write w => w.name
  | .setStruct n _ | .slotSet n _ => n

/-- A slot is bound to an entry of `vars` that exists. -/
def apply : VariableWrite D → Frame D → Frame D
  | .write w, f => w.apply f
  | .setStruct n s, f => f.setStruct n s
  | .slotSet n d, f => if n ∈ f.vars then { f with vars := f.vars.insert n d } else f

def structs : VariableWrite D → StructEffect D
  | .write w => w.value?.bind (structEffect (some none))
  | .setStruct _ s => some (some s)
  | .slotSet _ _ => none

end VariableWrite

structure SameVariables [Double D] (ctx ctx' : Context D) : Prop where
  get : ∀ n, ctx'.get n = ctx.get n
  getTyped : ∀ n, ctx'.getTyped n = ctx.getTyped n
  getBool : ∀ n, ctx'.getBool n = ctx.getBool n
  getString : ∀ n, ctx'.getString n = ctx.getString n
  getStruct : ∀ n, ctx'.getStruct n = ctx.getStruct n
  getField : ∀ n field, ctx'.getField n field = ctx.getField n field

structure SameParams (ctx ctx' : Context D) : Prop where
  getParam : ∀ n, ctx'.getParam n = ctx.getParam n
  getParamBool : ∀ n, ctx'.getParamBool n = ctx.getParamBool n
  getParamString : ∀ n, ctx'.getParamString n = ctx.getParamString n
  getParamTyped : ∀ n, ctx'.getParamTyped n = ctx.getParamTyped n

/-- Two entries in front of a third read the same: they are equal, or one is missing and the other equals the third. -/
def Alike {α : Type} (old new behind : Option α) : Prop :=
  old = new ∨ (old = none ∧ new = behind) ∨ (new = none ∧ old = behind)

theorem alike_iff {α : Type} {old new behind : Option α} : Alike old new behind ↔ new.or behind = old.or behind := by
  unfold Alike
  cases old <;> cases new <;> cases behind <;> simp [eq_comm]

def Frame.scalar? (f : Frame D) (n : String) : Option (Value D) :=
  (f.expressionScope.bind (· n)).or <| ((f.bools.lookup n).map .bool).or <| ((f.int64s.lookup n).map .int64).or <|
    ((f.strings.lookup n).map .string).or <| ((f.arrays.lookup n).map .array).or <| (f.vars.lookup n).map .number

def Frame.param? (f : Frame D) (n : String) : Option (Value D) :=
  ((f.boolParams.lookup n).map .bool).or <| ((f.int64Params.lookup n).map .int64).or <|
    ((f.stringParams.lookup n).map .string).or <| (f.arrayParams.lookup n).map .array

/-- What a typed parameter lookup reads of the structs: the entry of the name, or the field that a name with one dot
    denotes. -/
def Frame.structParam (f : Frame D) (n : String) : Option (Value D) :=
  ((f.structs.lookup n).map .struct).or (f.dottedParam n)

def typedBehind (f : Frame D) (parent : Context D) (n : String) : Option (Value D) :=
  ((f.cachedStructs.lookup n).map .struct).or (parent.getTyped n)

def paramBehind (f : Frame D) (parent : Context D) (n : String) : Option (Value D) :=
  ((Context.getParam (f :: parent) n).map .number).or (parent.getParamTyped n)

theorem getTyped_eq (f : Frame D) (parent : Context D) (n : String) :
    Context.getTyped (f :: parent) n =
      (f.scalar? n).or (((f.structs.lookup n).map .struct).or (typedBehind f parent n)) := by
  simp only [Context.getTyped, Frame.getTyped, Frame.scalar?, typedBehind, Option.orElse_eq_orElse, Option.orElse_eq_or,
    Option.or_assoc]

theorem getParamTyped_eq (f : Frame D) (parent : Context D) (n : String) :
    Context.getParamTyped (f :: parent) n = (f.param? n).or ((f.structParam n).or (paramBehind f parent n)) := by
  simp only [Context.getParamTyped, Frame.param?, Frame.structParam, paramBehind, Option.orElse_eq_orElse,
    Option.orElse_eq_or, Option.or_assoc]

/-- The entry of the name in `structs` changed, and nothing else. -/
def Frame.withStruct (f : Frame D) (n : String) : StructEffect D → Frame D
  | none => f
  | some none => { f with structs := f.structs.erase n }
  | some (some s) => { f with structs := f.structs.insert n s }

theorem lookup_withStruct (f : Frame D) (n : String) (effect : StructEffect D) :
    (f.withStruct n effect).structs.lookup n = effect.getD (f.structs.lookup n) := by
  rcases effect with _ | _ | s <;> simp [Frame.withStruct]

theorem lookup_withStruct_of_ne {n m : String} (h : m ≠ n) (f : Frame D) (effect : StructEffect D) :
    (f.withStruct n effect).structs.lookup m = f.structs.lookup m := by
  rcases effect with _ | _ | s <;> simp [Frame.withStruct, h]

structure SameVariableStores (f g : Frame D) : Prop where
  vars : g.vars = f.vars
  bools : g.bools = f.bools
  int64s : g.int64s = f.int64s
  strings : g.strings = f.strings
  arrays : g.arrays = f.arrays
  structs : g.structs = f.structs
  cachedStructs : g.cachedStructs = f.cachedStructs
  expressionScope : g.expressionScope = f.expressionScope

structure SameParamStores (f g : Frame D) : Prop where
  params : g.params = f.params
  boolParams : g.boolParams = f.boolParams
  int64Params : g.int64Params = f.int64Params
  stringParams : g.stringParams = f.stringParams
  arrayParams : g.arrayParams = f.arrayParams
  structs : g.structs = f.structs

theorem ParamWrite.sameStores (w : ParamWrite D) (f : Frame D) :
    SameVariableStores (f.withStruct w.name w.structs) (w.apply f) := by
  cases w with
  | setParamValue n v => cases v <;> constructor <;> rfl
  | _ => constructor <;> rfl

theorem VariableWrite.sameStores (w : VariableWrite D) (f : Frame D) :
    SameParamStores (f.withStruct w.name w.structs) (w.apply f) := by
  cases w with
  | write w =>
    cases w with
    | setValue n v => cases v <;> constructor <;> rfl
    | _ => constructor <;> rfl
  | setStruct n s => constructor <;> rfl
  | slotSet n d =>
    simp only [apply]
    split <;> constructor <;> rfl

section
variable [Double D] {f g : Frame D} {parent : Context D} {n : String}

theorem SameVariableStores.sameVariables (h : SameVariableStores f g) (parent : Context D) :
    SameVariables (f :: parent) (g :: parent) := by
  have htyped : ∀ n, Context.getTyped (g :: parent) n = Context.getTyped (f :: parent) n := by
    intro n
    simp only [Context.getTyped, Frame.getTyped, h.vars, h.bools, h.int64s, h.strings, h.arrays, h.structs,
      h.cachedStructs, h.expressionScope]
  have hstruct : ∀ n, Context.getStruct (g :: parent) n = Context.getStruct (f :: parent) n := by
    intro n
    simp only [Context.getStruct, h.structs]
  refine ⟨?_, htyped, ?_, ?_, hstruct, ?_⟩
  · intro n
    rw [Context.get, Context.get, htyped]
  · intro n
    simp only [Context.getBool, h.bools]
  · intro n
    simp only [Context.getString, h.strings]
  · intro n field
    rw [Context.getField, Context.getField, htyped, hstruct]

theorem SameVariables.trans {ctx ctx' ctx'' : Context D} (h : SameVariables ctx ctx') (h' : SameVariables ctx' ctx'') :
    SameVariables ctx ctx'' :=
  ⟨fun n => (h'.get n).trans (h.get n), fun n => (h'.getTyped n).trans (h.getTyped n),
    fun n => (h'.getBool n).trans (h.getBool n), fun n => (h'.getString n).trans (h.getString n),
    fun n => (h'.getStruct n).trans (h.getStruct n), fun n field => (h'.getField n field).trans (h.getField n field)⟩

theorem SameVariables.symm {ctx ctx' : Context D} (h : SameVariables ctx ctx') : SameVariables ctx' ctx :=
  ⟨fun n => (h.get n).symm, fun n => (h.getTyped n).symm, fun n => (h.getBool n).symm, fun n => (h.getString n).symm,
    fun n => (h.getStruct n).symm, fun n field => (h.getField n field).symm⟩

/-- What a write does to `structs` is not seen by the variables: behind the entry there is the same struct, for a
    struct lookup in the parents, and for a typed lookup, unless a scalar or an array hides it, in the cached structs
    and the parents. -/
def UnseenByVariables (f : Frame D) (parent : Context D) (n : String) (effect : StructEffect D) : Prop :=
  Alike (f.structs.lookup n) (effect.getD (f.structs.lookup n)) (parent.getStruct n) ∧
    (f.scalar? n = none →
      Alike ((f.structs.lookup n).map .struct) ((effect.getD (f.structs.lookup n)).map .struct) (typedBehind f parent n))

theorem sameVariables_withStruct_iff (f : Frame D) (parent : Context D) (n : String) (effect : StructEffect D) :
    SameVariables (f :: parent) (f.withStruct n effect :: parent) ↔ UnseenByVariables f parent n effect := by
  have hscalar : ∀ m, (f.withStruct n effect).scalar? m = f.scalar? m := by
    intro m
    rcases effect with _ | _ | s <;> rfl
  have hbehind : ∀ m, typedBehind (f.withStruct n effect) parent m = typedBehind f parent m := by
    intro m
    rcases effect with _ | _ | s <;> rfl
  constructor
  · intro h
    refine ⟨?_, ?_⟩
    · have hstruct := h.getStruct n
      simp only [Context.getStruct, lookup_withStruct, Option.orElse_eq_orElse, Option.orElse_eq_or] at hstruct
      exact alike_iff.mpr hstruct
    · intro hnone
      have htyped := h.getTyped n
      rw [getTyped_eq, getTyped_eq, hscalar, hbehind, hnone, lookup_withStruct, Option.none_or, Option.none_or] at htyped
      exact alike_iff.mpr htyped
  · rintro ⟨hstruct, hscalars⟩
    have hget : ∀ m, Context.getStruct (f.withStruct n effect :: parent) m = Context.getStruct (f :: parent) m := by
      intro m
      simp only [Context.getStruct, Option.orElse_eq_orElse, Option.orElse_eq_or]
      by_cases hm : m = n
      · rw [hm, lookup_withStruct]
        exact alike_iff.mp hstruct
      · rw [lookup_withStruct_of_ne hm]
    have htyped : ∀ m, Context.getTyped (f.withStruct n effect :: parent) m = Context.getTyped (f :: parent) m := by
      intro m
      rw [getTyped_eq, getTyped_eq, hscalar, hbehind]
      by_cases hm : m = n
      · subst hm
        cases hnone : f.scalar? m with
        | some v => rfl
        | none =>
          rw [lookup_withStruct, Option.none_or, Option.none_or]
          exact alike_iff.mp (hscalars hnone)
      · rw [lookup_withStruct_of_ne hm]
    refine ⟨?_, htyped, ?_, ?_, hget, ?_⟩
    · intro m
      rw [Context.get, Context.get, htyped]
    · intro m
      rcases effect with _ | _ | s <;> rfl
    · intro m
      rcases effect with _ | _ | s <;> rfl
    · intro m field
      rw [Context.getField, Context.getField, htyped, hget]

theorem sameVariables_paramWrite_iff (f : Frame D) (parent : Context D) (w : ParamWrite D) :
    SameVariables (f :: parent) (w.apply f :: parent) ↔ UnseenByVariables f parent w.name w.structs := by
  have hsame := (w.sameStores f).sameVariables parent
  rw [← sameVariables_withStruct_iff]
  exact ⟨fun h => h.trans hsame.symm, fun h => h.trans hsame⟩

end

section
variable {f g : Frame D} {parent : Context D} {n : String}

theorem SameParamStores.sameParams (h : SameParamStores f g) (parent : Context D) :
    SameParams (f :: parent) (g :: parent) := by
  have hparam : ∀ n, Context.getParam (g :: parent) n = Context.getParam (f :: parent) n := by
    intro n
    simp only [Context.getParam, h.params]
  refine ⟨hparam, ?_, ?_, ?_⟩
  · intro n
    simp only [Context.getParamBool, h.boolParams]
  · intro n
    simp only [Context.getParamString, h.stringParams]
  · intro n
    simp only [Context.getParamTyped, Frame.dottedParam, hparam, h.boolParams, h.int64Params, h.stringParams,
      h.arrayParams, h.structs]

/-- What a write does to `structs` is not seen by the parameters: for the name and for its fields, unless a scalar or
    an array hides them, the same value is found behind. -/
def UnseenByParams (f : Frame D) (parent : Context D) (n : String) (effect : StructEffect D) : Prop :=
  ∀ m, (m = n ∨ ∃ field, m.splitOn "." = [n, field]) → f.param? m = none →
    Alike (f.structParam m) ((f.withStruct n effect).structParam m) (paramBehind f parent m)

theorem structParam_withStruct {m : String} (h : ¬ (m = n ∨ ∃ field, m.splitOn "." = [n, field])) (f : Frame D)
    (effect : StructEffect D) : (f.withStruct n effect).structParam m = f.structParam m := by
  obtain ⟨hm, hfield⟩ := not_or.mp h
  rw [Frame.structParam, Frame.structParam, lookup_withStruct_of_ne hm, Frame.dottedParam, Frame.dottedParam]
  split
  · rename_i root field hsplit
    have hroot : root ≠ n := by
      rintro rfl
      exact hfield ⟨field, hsplit⟩
    rw [lookup_withStruct_of_ne hroot]
  · rfl

theorem sameParams_withStruct_iff (f : Frame D) (parent : Context D) (n : String) (effect : StructEffect D) :
    SameParams (f :: parent) (f.withStruct n effect :: parent) ↔ UnseenByParams f parent n effect := by
  have hparam : ∀ m, (f.withStruct n effect).param? m = f.param? m := by
    intro m
    rcases effect with _ | _ | s <;> rfl
  have hbehind : ∀ m, paramBehind (f.withStruct n effect) parent m = paramBehind f parent m := by
    intro m
    rcases effect with _ | _ | s <;> rfl
  constructor
  · intro h m _ hnone
    have htyped := h.getParamTyped m
    rw [getParamTyped_eq, getParamTyped_eq, hparam, hbehind, hnone, Option.none_or, Option.none_or] at htyped
    exact alike_iff.mpr htyped
  · intro h
    refine ⟨?_, ?_, ?_, ?_⟩
    · intro m
      rcases effect with _ | _ | s <;> rfl
    · intro m
      rcases effect with _ | _ | s <;> rfl
    · intro m
      rcases effect with _ | _ | s <;> rfl
    · intro m
      rw [getParamTyped_eq, getParamTyped_eq, hparam, hbehind]
      by_cases hm : m = n ∨ ∃ field, m.splitOn "." = [n, field]
      · cases hnone : f.param? m with
        | some v => rfl
        | none =>
          rw [Option.none_or, Option.none_or]
          exact alike_iff.mp (h m hm hnone)
      · rw [structParam_withStruct hm]

theorem SameParams.trans {ctx ctx' ctx'' : Context D} (h : SameParams ctx ctx') (h' : SameParams ctx' ctx'') :
    SameParams ctx ctx'' :=
  ⟨fun n => (h'.getParam n).trans (h.getParam n), fun n => (h'.getParamBool n).trans (h.getParamBool n),
    fun n => (h'.getParamString n).trans (h.getParamString n), fun n => (h'.getParamTyped n).trans (h.getParamTyped n)⟩

theorem SameParams.symm {ctx ctx' : Context D} (h : SameParams ctx ctx') : SameParams ctx' ctx :=
  ⟨fun n => (h.getParam n).symm, fun n => (h.getParamBool n).symm, fun n => (h.getParamString n).symm,
    fun n => (h.getParamTyped n).symm⟩

theorem sameParams_variableWrite_iff (f : Frame D) (parent : Context D) (w : VariableWrite D) :
    SameParams (f :: parent) (w.apply f :: parent) ↔ UnseenByParams f parent w.name w.structs := by
  have hsame := (w.sameStores f).sameParams parent
  rw [← sameParams_withStruct_iff]
  exact ⟨fun h => h.trans hsame.symm, fun h => h.trans hsame⟩

end

/-- A parameter write leaves every variable lookup as it was, and a variable write every parameter lookup, exactly when
    its change of the shared structs is not seen there. -/
theorem namespaces_independent_iff [Double D] (f : Frame D) (parent : Context D) :
    (∀ w : ParamWrite D, SameVariables (f :: parent) (Context.update (f :: parent) w.apply) ↔
      UnseenByVariables f parent w.name w.structs) ∧
    ∀ w : VariableWrite D, SameParams (f :: parent) (Context.update (f :: parent) w.apply) ↔
      UnseenByParams f parent w.name w.structs :=
  ⟨sameVariables_paramWrite_iff f parent, sameParams_variableWrite_iff f parent⟩

theorem setParam_removes_struct :
    ¬ SameVariables (Context.update (Context.new (D := Int)) fun f => f.setStruct "p" [("a", .number 1)])
      (Context.update (Context.update Context.new fun f => f.setStruct "p" [("a", .number 1)])
        (ParamWrite.setParam "p" 2).apply) := by
  intro h
  have hstruct := congrArg Option.isSome (h.getStruct "p")
  revert hstruct
  decide

end Cxpr
