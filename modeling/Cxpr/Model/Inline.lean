import Cxpr.Codegen.WindowPlan
import Cxpr.Eval.Agree
import Cxpr.Eval.Scalar

/-! Inlining of functions whose body looks back (`src/model/inline.c`). A call is replaced by the body with the arguments
    in place of the parameters, again and again up to a depth. What an expression means is given by any meaning of its
    constructs in which a call of a defined function means its body. -/

namespace Cxpr.Model
variable {D M : Type}

mutual

/-- `cxpr_model_inline_locals`. -/
def inlineLocals (locals : List (String × Ast D)) : Ast D → Ast D
  | .identifier name => (locals.lookup name).getD (.identifier name)
  | .record names values => .record names (inlineFields locals names values)
  | .binary op l r => .binary op (inlineLocals locals l) (inlineLocals locals r)
  | .unary op a => .unary op (inlineLocals locals a)
  | .call name args argNames => .call name (inlineArgs locals args) argNames
  | .producerAccess name args argNames field => .producerAccess name (inlineArgs locals args) argNames field
  | .index t i => .index (inlineLocals locals t) (inlineLocals locals i)
  | .ternary c t e => .ternary (inlineLocals locals c) (inlineLocals locals t) (inlineLocals locals e)
  -- everything else is cloned, arrays and accesses to fields included
  | .array es => .array es
  | .fieldAccess object field => .fieldAccess object field
  | .fieldOf base field => .fieldOf base field
  | .chainAccess path => .chainAccess path
  | .number v => .number v
  | .int64 v => .int64 v
  | .bool b => .bool b
  | .string s => .string s
  | .param name => .param name

def inlineArgs (locals : List (String × Ast D)) : List (Ast D) → List (Ast D)
  | [] => []
  | a :: as => inlineLocals locals a :: inlineArgs locals as

def inlineFields (locals : List (String × Ast D)) : List String → List (Ast D) → List (Ast D)
  | name :: names, v :: vs => inlineLocals locals v :: inlineFields ((name, inlineLocals locals v) :: locals) names vs
  | _, _ => []

end

mutual

/-- `cxpr_model_defined_body_is_series_aware`. -/
def seriesAwareNode (reg : Registry D) (deeper : Ast D → Bool) : Ast D → Bool
  | .index _ _ => true
  | .call name args _ =>
    Codegen.WindowModel.windowFunctions.contains name || ((reg.find name).bind (·.definedBody)).any deeper ||
      anySeriesAware reg deeper args
  | .record _ values => anySeriesAware reg deeper values
  | .binary _ l r => seriesAwareNode reg deeper l || seriesAwareNode reg deeper r
  | .unary _ a => seriesAwareNode reg deeper a
  | .ternary c t e => seriesAwareNode reg deeper c || seriesAwareNode reg deeper t || seriesAwareNode reg deeper e
  | .array es => anySeriesAware reg deeper es
  | _ => false

def anySeriesAware (reg : Registry D) (deeper : Ast D → Bool) : List (Ast D) → Bool
  | [] => false
  | a :: as => seriesAwareNode reg deeper a || anySeriesAware reg deeper as

end

/-- `cxpr_model_defined_body_is_series_aware` with the levels that are left. -/
def seriesAware (reg : Registry D) : Nat → Ast D → Bool
  | 0 => fun _ => false
  | levels + 1 => seriesAwareNode reg (seriesAware reg levels)

def inlineLevels : Nat := 65

def inlinedFunction (reg : Registry D) (name : String) : Option (FuncEntry D × Ast D) := do
  let entry ← reg.find name
  let body ← entry.definedBody
  if seriesAware reg inlineLevels body && entry.definedReturnFields.isEmpty then some (entry, body) else none

def both {α β : Type} (x : Except Error α) (y : Except Error β) : Except Error (α × β) := do
  let b ← y
  let a ← x
  return (a, b)

def callLocals (entry : FuncEntry D) (args : List (Ast D)) : List (String × Ast D) :=
  (entry.definedParamNames.zip args).reverse

mutual

/-- `cxpr_model_expand_defined_owned`. -/
def expandNode (reg : Registry D) (deeper : Ast D → Except Error (Ast D)) : Ast D → Except Error (Ast D)
  | .call name args argNames => do
    let args ← expandAll reg deeper args
    match inlinedFunction reg name with
    | some (entry, body) =>
      if entry.definedParamNames.length ≠ args.length then .error ⟨.wrongArity, "Model function arity mismatch"⟩
      else deeper (inlineLocals (callLocals entry args) body)
    | none => return .call name args argNames
  | .record names values => return .record names (← expandAll reg deeper values)
  | .binary op l r => do
    let (l, r) ← both (expandNode reg deeper l) (expandNode reg deeper r)
    return .binary op l r
  | .unary op a => return .unary op (← expandNode reg deeper a)
  | .index t i => do
    let (t, i) ← both (expandNode reg deeper t) (expandNode reg deeper i)
    return .index t i
  | .ternary c t e => do
    let (c, t, e) ← both (expandNode reg deeper c) (both (expandNode reg deeper t) (expandNode reg deeper e))
    return .ternary c t e
  | .array es => return .array (← expandAll reg deeper es)
  | .identifier name => .ok (.identifier name)
  | .producerAccess name args argNames field => .ok (.producerAccess name args argNames field)
  | .fieldAccess object field => .ok (.fieldAccess object field)
  | .fieldOf base field => .ok (.fieldOf base field)
  | .chainAccess path => .ok (.chainAccess path)
  | .number v => .ok (.number v)
  | .int64 v => .ok (.int64 v)
  | .bool b => .ok (.bool b)
  | .string s => .ok (.string s)
  | .param name => .ok (.param name)

def expandAll (reg : Registry D) (deeper : Ast D → Except Error (Ast D)) : List (Ast D) → Except Error (List (Ast D))
  | [] => .ok []
  | a :: as => do
    let a ← expandNode reg deeper a
    return a :: (← expandAll reg deeper as)

end

/-- `cxpr_model_expand_defined_owned` with the levels that are left. -/
def expandDefined (reg : Registry D) : Nat → Ast D → Except Error (Ast D)
  | 0 => fun _ => .error ⟨.syntaxError, "Recursive model function expansion"⟩
  | levels + 1 => expandNode reg (expandDefined reg levels)

def inlineDefinedCalls (reg : Registry D) (ast : Ast D) : Except Error (Ast D) := expandDefined reg inlineLevels ast

/-- What the constructs of an expression mean. A name of the session may stand for more than a value: a field of it is
    whatever the session finds under the dotted name. -/
structure Meaning (D M : Type) where
  number : D → M
  int64 : Int64 → M
  bool : Bool → M
  string : String → M
  array : List M → M
  record : List String → List M → M
  name : String → M
  param : String → M
  field : M → String → M
  producer : String → List M → List (Option String) → String → M
  binary : BinaryOp → M → M → M
  unary : UnaryOp → M → M
  call : String → List M → List (Option String) → M
  index : M → M → M
  ternary : M → M → M → M

def Meaning.nameIn (m : Meaning D M) (ρ : List (String × M)) (name : String) : M := (ρ.lookup name).getD (m.name name)

mutual

/-- The meaning of an expression whose locals, the innermost first, have the given meanings. -/
def Meaning.read (m : Meaning D M) (ρ : List (String × M)) : Ast D → M
  | .number v => m.number v
  | .int64 v => m.int64 v
  | .bool b => m.bool b
  | .string s => m.string s
  | .param name => m.param name
  | .identifier name => m.nameIn ρ name
  | .fieldAccess object field => m.field (m.nameIn ρ object) field
  | .fieldOf base field => m.field (m.read ρ base) field
  | .chainAccess [] => m.name ""
  | .chainAccess (root :: path) => path.foldl m.field (m.nameIn ρ root)
  | .array es => m.array (m.readAll ρ es)
  | .record names values => m.record names (m.readFields ρ names values)
  | .producerAccess name args argNames field => m.producer name (m.readAll ρ args) argNames field
  | .binary op l r => m.binary op (m.read ρ l) (m.read ρ r)
  | .unary op a => m.unary op (m.read ρ a)
  | .call name args argNames => m.call name (m.readAll ρ args) argNames
  | .index t i => m.index (m.read ρ t) (m.read ρ i)
  | .ternary c t e => m.ternary (m.read ρ c) (m.read ρ t) (m.read ρ e)

def Meaning.readAll (m : Meaning D M) (ρ : List (String × M)) : List (Ast D) → List M
  | [] => []
  | a :: as => m.read ρ a :: m.readAll ρ as

def Meaning.readFields (m : Meaning D M) (ρ : List (String × M)) : List String → List (Ast D) → List M
  | name :: names, v :: vs => m.read ρ v :: m.readFields ((name, m.read ρ v) :: ρ) names vs
  | _, _ => []

end

/-- A call by value: a call of a defined function means its body, in which each parameter is the argument bound to it and
    every other name is a name of the session. -/
def Meaning.Defines (m : Meaning D M) (reg : Registry D) : Prop :=
  ∀ name entry body args argNames ordered, reg.find name = some entry → entry.definedBody = some body →
    entry.definedReturnFields = [] → callBindArgs entry args argNames = .ok ordered →
      entry.definedParamNames.length = ordered.length →
        m.call name args argNames = m.read (entry.definedParamNames.zip ordered).reverse body

mutual

def freeNames : Ast D → List String
  | .identifier name => [name]
  | .fieldAccess object _ => [object]
  | .chainAccess path => path.head?.toList
  | .fieldOf base _ => freeNames base
  | .array es => freeNamesAll es
  | .record names values => freeNamesFields names values
  | .producerAccess _ args _ _ => freeNamesAll args
  | .binary _ l r => freeNames l ++ freeNames r
  | .unary _ a => freeNames a
  | .call _ args _ => freeNamesAll args
  | .index t i => freeNames t ++ freeNames i
  | .ternary c t e => freeNames c ++ freeNames t ++ freeNames e
  | .number _ | .int64 _ | .bool _ | .string _ | .param _ => []

def freeNamesAll : List (Ast D) → List String
  | [] => []
  | a :: as => freeNames a ++ freeNamesAll as

def freeNamesFields : List String → List (Ast D) → List String
  | name :: names, v :: vs => freeNames v ++ (freeNamesFields names vs).filter (· ≠ name)
  | _, _ => []

end

def SameNames (m : Meaning D M) (ρ σ : List (String × M)) (names : List String) : Prop :=
  ∀ n ∈ names, m.nameIn ρ n = m.nameIn σ n

section
variable {m : Meaning D M} {ρ σ : List (String × M)}

@[simp] theorem nameIn_cons_self (m : Meaning D M) (ρ : List (String × M)) (n : String) (x : M) :
    m.nameIn ((n, x) :: ρ) n = x := by
  simp [Meaning.nameIn]

theorem nameIn_cons_of_ne {n k : String} (x : M) (h : k ≠ n) : m.nameIn ((n, x) :: ρ) k = m.nameIn ρ k := by
  have hbeq : (k == n) = false := by simpa using h
  simp [Meaning.nameIn, List.lookup_cons, hbeq]

theorem SameNames.left {xs ys : List String} (h : SameNames m ρ σ (xs ++ ys)) : SameNames m ρ σ xs :=
  fun n hn => h n (List.mem_append_left ys hn)

theorem SameNames.right {xs ys : List String} (h : SameNames m ρ σ (xs ++ ys)) : SameNames m ρ σ ys :=
  fun n hn => h n (List.mem_append_right xs hn)

theorem SameNames.cons {n : String} {names : List String} (x : M) (h : SameNames m ρ σ (names.filter (· ≠ n))) :
    SameNames m ((n, x) :: ρ) ((n, x) :: σ) names := by
  intro k hk
  by_cases hkn : k = n
  · rw [hkn, nameIn_cons_self, nameIn_cons_self]
  · rw [nameIn_cons_of_ne x hkn, nameIn_cons_of_ne x hkn]
    exact h k (List.mem_filter.mpr ⟨hk, by simpa using hkn⟩)

mutual

theorem read_congr {ρ σ : List (String × M)} : ∀ a : Ast D, SameNames m ρ σ (freeNames a) → m.read ρ a = m.read σ a
  | .number _, _ | .int64 _, _ | .bool _, _ | .string _, _ | .param _, _ => by simp only [Meaning.read]
  | .identifier name, h => by
    rw [Meaning.read, Meaning.read]
    exact h name (by simp [freeNames])
  | .fieldAccess object field, h => by
    rw [Meaning.read, Meaning.read, h object (by simp [freeNames])]
  | .fieldOf base field, h => by
    rw [freeNames] at h
    rw [Meaning.read, Meaning.read, read_congr _ h]
  | .chainAccess [], _ => by rw [Meaning.read, Meaning.read]
  | .chainAccess (root :: path), h => by
    rw [Meaning.read, Meaning.read, h root (by simp [freeNames])]
  | .array es, h => by
    rw [freeNames] at h
    rw [Meaning.read, Meaning.read, readAll_congr _ h]
  | .record names values, h => by
    rw [freeNames] at h
    rw [Meaning.read, Meaning.read, readFields_congr _ _ h]
  | .producerAccess name args argNames field, h => by
    rw [freeNames] at h
    rw [Meaning.read, Meaning.read, readAll_congr _ h]
  | .binary op l r, h => by
    rw [freeNames] at h
    rw [Meaning.read, Meaning.read, read_congr _ h.left, read_congr _ h.right]
  | .unary op a, h => by
    rw [freeNames] at h
    rw [Meaning.read, Meaning.read, read_congr _ h]
  | .call name args argNames, h => by
    rw [freeNames] at h
    rw [Meaning.read, Meaning.read, readAll_congr _ h]
  | .index t i, h => by
    rw [freeNames] at h
    rw [Meaning.read, Meaning.read, read_congr _ h.left, read_congr _ h.right]
  | .ternary c t e, h => by
    rw [freeNames] at h
    rw [Meaning.read, Meaning.read, read_congr _ h.left.left, read_congr _ h.left.right, read_congr _ h.right]

theorem readAll_congr {ρ σ : List (String × M)} :
    ∀ as : List (Ast D), SameNames m ρ σ (freeNamesAll as) → m.readAll ρ as = m.readAll σ as
  | [], _ => by rw [Meaning.readAll, Meaning.readAll]
  | a :: as, h => by
    rw [freeNamesAll] at h
    rw [Meaning.readAll, Meaning.readAll, read_congr _ h.left, readAll_congr _ h.right]

theorem readFields_congr {ρ σ : List (String × M)} : ∀ (names : List String) (vs : List (Ast D)),
    SameNames m ρ σ (freeNamesFields names vs) → m.readFields ρ names vs = m.readFields σ names vs
  | name :: names, v :: vs, h => by
    rw [freeNamesFields] at h
    rw [Meaning.readFields, Meaning.readFields, read_congr _ h.left, readFields_congr _ _ (h.right.cons (m.read σ v))]
  | [], _, _ => by simp only [Meaning.readFields]
  | _ :: _, [], _ => by simp only [Meaning.readFields]

end

end

/-! ### Clean substitutions -/

/-- What takes the place of a name: the expression, the fields of records that have been opened around the place since,
    and whether it is such a field itself. -/
structure Replacement (D : Type) where
  expr : Ast D
  opened : List String
  isField : Bool

def Replacement.Safe (r : Replacement D) : Prop := ∀ n ∈ freeNames r.expr, n ∉ r.opened

def Replacement.openField (name : String) (r : Replacement D) : Replacement D := { r with opened := name :: r.opened }

def openField (name : String) (value : Ast D) (rs : List (String × Replacement D)) : List (String × Replacement D) :=
  (name, ⟨value, [name], true⟩) :: rs.map fun x => (x.1, x.2.openField name)

def localsOf (rs : List (String × Replacement D)) : List (String × Ast D) := rs.map fun x => (x.1, x.2.expr)

def Replaceable (scope : List String) (rs : List (String × Replacement D)) (n : String) : Prop :=
  match rs.lookup n with
  | none => n ∉ scope
  | some r => r.Safe

def Keepable (scope : List String) (rs : List (String × Replacement D)) (n : String) : Prop :=
  match rs.lookup n with
  | none => n ∉ scope
  | some r => r.isField = true ∨ r.expr = .identifier n ∧ r.Safe

mutual

/-- The substitution puts an argument for every parameter, and catches no name; `scope` are the fields of the records
    around the call. -/
def Clean (scope : List String) (rs : List (String × Replacement D)) : Ast D → Prop
  | .identifier name => Replaceable scope rs name
  | .record names values => CleanFields scope rs names values
  | .binary _ l r => Clean scope rs l ∧ Clean scope rs r
  | .unary _ a => Clean scope rs a
  | .call _ args _ => CleanAll scope rs args
  | .producerAccess _ args _ _ => CleanAll scope rs args
  | .index t i => Clean scope rs t ∧ Clean scope rs i
  | .ternary c t e => Clean scope rs c ∧ Clean scope rs t ∧ Clean scope rs e
  | .array es => ∀ n ∈ freeNamesAll es, Keepable scope rs n
  | .fieldAccess object _ => Keepable scope rs object
  | .fieldOf base _ => ∀ n ∈ freeNames base, Keepable scope rs n
  | .chainAccess path => ∀ n ∈ path.head?, Keepable scope rs n
  | .number _ | .int64 _ | .bool _ | .string _ | .param _ => True

def CleanAll (scope : List String) (rs : List (String × Replacement D)) : List (Ast D) → Prop
  | [] => True
  | a :: as => Clean scope rs a ∧ CleanAll scope rs as

def CleanFields (scope : List String) (rs : List (String × Replacement D)) : List String → List (Ast D) → Prop
  | name :: names, v :: vs =>
    Clean scope rs v ∧ CleanFields scope (openField name (inlineLocals (localsOf rs) v) rs) names vs
  | _, _ => True

end

section
variable {m : Meaning D M} {ρ σ : List (String × M)} {scope : List String} {rs : List (String × Replacement D)}

/-- The locals `ρ` of a body beside the locals `σ` of the place it is put to: a replacement means there what the name
    stands for. -/
structure Related (m : Meaning D M) (scope : List String) (rs : List (String × Replacement D)) (ρ σ : List (String × M)) :
    Prop where
  free : ∀ n, rs.lookup n = none → n ∉ scope → m.nameIn ρ n = m.nameIn σ n
  replaced : ∀ n r, rs.lookup n = some r → r.Safe → m.nameIn ρ n = m.read σ r.expr
  field : ∀ n r, rs.lookup n = some r → r.isField = true → m.nameIn ρ n = m.nameIn σ n

theorem lookup_map_snd {α β : Type} (f : α → β) (l : List (String × α)) (n : String) :
    (l.map fun x => (x.1, f x.2)).lookup n = (l.lookup n).map f := by
  induction l with
  | nil => rfl
  | cons x l ih =>
    obtain ⟨k, a⟩ := x
    rw [List.map_cons, List.lookup_cons, List.lookup_cons]
    cases n == k with
    | true => rfl
    | false => exact ih

theorem lookup_localsOf (rs : List (String × Replacement D)) (n : String) :
    (localsOf rs).lookup n = (rs.lookup n).map (·.expr) := lookup_map_snd Replacement.expr rs n

theorem localsOf_openField (name : String) (value : Ast D) (rs : List (String × Replacement D)) :
    localsOf (openField name value rs) = (name, value) :: localsOf rs := by
  simp [localsOf, openField, Replacement.openField, Function.comp_def]

theorem lookup_openField_of_ne {name n : String} (value : Ast D) (rs : List (String × Replacement D)) (hne : n ≠ name) :
    (openField name value rs).lookup n = (rs.lookup n).map (·.openField name) := by
  have hbeq : (n == name) = false := by simpa using hne
  rw [openField, List.lookup_cons, hbeq]
  exact lookup_map_snd (·.openField name) rs n

theorem Related.openField (h : Related m scope rs ρ σ) (name : String) (value : Ast D) {x : M} (hx : m.read σ value = x) :
    Related m scope (openField name value rs) ((name, x) :: ρ) ((name, x) :: σ) where
  free n hnone hn := by
    by_cases hne : n = name
    · rw [hne, nameIn_cons_self, nameIn_cons_self]
    · rw [lookup_openField_of_ne value rs hne, Option.map_eq_none_iff] at hnone
      rw [nameIn_cons_of_ne x hne, nameIn_cons_of_ne x hne]
      exact h.free n hnone hn
  replaced n r hr hsafe := by
    -- the replacement means the same under the new field, which catches none of its names
    have hkept : ∀ e : Ast D, name ∉ freeNames e → m.read ((name, x) :: σ) e = m.read σ e := by
      intro e he
      refine read_congr e fun k hk => nameIn_cons_of_ne x ?_
      rintro rfl
      exact he hk
    by_cases hne : n = name
    · subst hne
      rw [Model.openField, List.lookup_cons_self] at hr
      obtain rfl := Option.some.inj hr
      rw [nameIn_cons_self, hkept value fun hmem => hsafe n hmem (List.mem_singleton_self n), hx]
    · rw [lookup_openField_of_ne value rs hne] at hr
      obtain ⟨q, hq, rfl⟩ := Option.map_eq_some_iff.mp hr
      have hfree : name ∉ freeNames q.expr := fun hmem => hsafe name hmem List.mem_cons_self
      rw [nameIn_cons_of_ne x hne, h.replaced n q hq fun k hk hmem => hsafe k hk (List.mem_cons_of_mem name hmem)]
      exact (hkept q.expr hfree).symm
  field n r hr hfield := by
    by_cases hne : n = name
    · rw [hne, nameIn_cons_self, nameIn_cons_self]
    · rw [lookup_openField_of_ne value rs hne] at hr
      obtain ⟨q, hq, rfl⟩ := Option.map_eq_some_iff.mp hr
      rw [nameIn_cons_of_ne x hne, nameIn_cons_of_ne x hne]
      exact h.field n q hq hfield

theorem Related.keeps (h : Related m scope rs ρ σ) {names : List String} (hkeep : ∀ n ∈ names, Keepable scope rs n) :
    SameNames m σ ρ names := by
  intro n hn
  have hkeepable := hkeep n hn
  unfold Keepable at hkeepable
  cases hr : rs.lookup n with
  | none =>
    rw [hr] at hkeepable
    exact (h.free n hr hkeepable).symm
  | some r =>
    rw [hr] at hkeepable
    rcases hkeepable with hfield | ⟨hexpr, hsafe⟩
    · exact (h.field n r hr hfield).symm
    · rw [h.replaced n r hr hsafe, hexpr, Meaning.read]

mutual

theorem read_inlineLocals {rs : List (String × Replacement D)} {ρ σ : List (String × M)} (h : Related m scope rs ρ σ) :
    ∀ a : Ast D, Clean scope rs a → m.read σ (inlineLocals (localsOf rs) a) = m.read ρ a
  | .number _, _ | .int64 _, _ | .bool _, _ | .string _, _ | .param _, _ => by simp only [inlineLocals, Meaning.read]
  | .identifier name, hclean => by
    rw [Clean, Replaceable] at hclean
    rw [inlineLocals, lookup_localsOf, Meaning.read]
    cases hr : rs.lookup name with
    | none =>
      rw [hr] at hclean
      rw [h.free name hr hclean]
      simp only [Option.map_none, Option.getD_none, Meaning.read]
    | some r =>
      rw [hr] at hclean
      rw [h.replaced name r hr hclean]
      rfl
  | .record names values, hclean => by
    rw [Clean] at hclean
    rw [inlineLocals, Meaning.read, Meaning.read, readFields_inlineFields h _ _ hclean]
  | .binary op l r, hclean => by
    rw [Clean] at hclean
    rw [inlineLocals, Meaning.read, Meaning.read, read_inlineLocals h _ hclean.1, read_inlineLocals h _ hclean.2]
  | .unary op a, hclean => by
    rw [Clean] at hclean
    rw [inlineLocals, Meaning.read, Meaning.read, read_inlineLocals h _ hclean]
  | .call name args argNames, hclean => by
    rw [Clean] at hclean
    rw [inlineLocals, Meaning.read, Meaning.read, readAll_inlineArgs h _ hclean]
  | .producerAccess name args argNames field, hclean => by
    rw [Clean] at hclean
    rw [inlineLocals, Meaning.read, Meaning.read, readAll_inlineArgs h _ hclean]
  | .index t i, hclean => by
    rw [Clean] at hclean
    rw [inlineLocals, Meaning.read, Meaning.read, read_inlineLocals h _ hclean.1, read_inlineLocals h _ hclean.2]
  | .ternary c t e, hclean => by
    rw [Clean] at hclean
    rw [inlineLocals, Meaning.read, Meaning.read, read_inlineLocals h _ hclean.1, read_inlineLocals h _ hclean.2.1,
      read_inlineLocals h _ hclean.2.2]
  | .array es, hclean => by
    rw [Clean] at hclean
    rw [inlineLocals]
    exact read_congr _ (by rw [freeNames]; exact h.keeps hclean)
  | .fieldAccess object field, hclean => by
    rw [Clean] at hclean
    rw [inlineLocals]
    exact read_congr _ (by rw [freeNames]; exact h.keeps (List.forall_mem_singleton.mpr hclean))
  | .fieldOf base field, hclean => by
    rw [Clean] at hclean
    rw [inlineLocals]
    exact read_congr _ (by rw [freeNames]; exact h.keeps hclean)
  | .chainAccess path, hclean => by
    rw [Clean] at hclean
    rw [inlineLocals]
    exact read_congr _ (by rw [freeNames]; exact h.keeps fun n hn => hclean n (by simpa using hn))

theorem readAll_inlineArgs {rs : List (String × Replacement D)} {ρ σ : List (String × M)} (h : Related m scope rs ρ σ) :
    ∀ as : List (Ast D), CleanAll scope rs as → m.readAll σ (inlineArgs (localsOf rs) as) = m.readAll ρ as
  | [], _ => by rw [inlineArgs, Meaning.readAll, Meaning.readAll]
  | a :: as, hclean => by
    rw [CleanAll] at hclean
    rw [inlineArgs, Meaning.readAll, Meaning.readAll, read_inlineLocals h _ hclean.1, readAll_inlineArgs h _ hclean.2]

theorem readFields_inlineFields {rs : List (String × Replacement D)} {ρ σ : List (String × M)} (h : Related m scope rs ρ σ) :
    ∀ (names : List String) (vs : List (Ast D)), CleanFields scope rs names vs →
      m.readFields σ names (inlineFields (localsOf rs) names vs) = m.readFields ρ names vs
  | name :: names, v :: vs, hclean => by
    rw [CleanFields] at hclean
    have hvalue := read_inlineLocals h _ hclean.1
    have hrest := readFields_inlineFields (h.openField name (inlineLocals (localsOf rs) v) hvalue) _ _ hclean.2
    rw [localsOf_openField] at hrest
    rw [inlineFields, Meaning.readFields, Meaning.readFields, hvalue, hrest]
  | [], _, _ => by simp only [inlineFields, Meaning.readFields]
  | _ :: _, [], _ => by simp only [inlineFields, Meaning.readFields]

end

end

/-! ### Faithful expansions -/

def callReplacements (entry : FuncEntry D) (args : List (Ast D)) : List (String × Replacement D) :=
  (callLocals entry args).map fun x => (x.1, ⟨x.2, [], false⟩)

structure CleanCall (scope : List String) (entry : FuncEntry D) (body : Ast D) (args : List (Ast D))
    (argNames : List (Option String)) : Prop where
  inOrder : callBindArgs entry args argNames = .ok args
  clean : Clean scope (callReplacements entry args) body

mutual

/-- Every call that is inlined in the expression is substituted cleanly, and so are the calls in what `deeper` expands. -/
def FaithfulNode (reg : Registry D) (deeper : Ast D → Except Error (Ast D)) (faithful : List String → Ast D → Prop)
    (scope : List String) : Ast D → Prop
  | .call name args argNames =>
    FaithfulAll reg deeper faithful scope args ∧
      ∀ args' entry body, expandAll reg deeper args = .ok args' → inlinedFunction reg name = some (entry, body) →
        CleanCall scope entry body args' argNames ∧ faithful scope (inlineLocals (callLocals entry args') body)
  | .record names values => FaithfulFields reg deeper faithful scope names values
  | .binary _ l r => FaithfulNode reg deeper faithful scope l ∧ FaithfulNode reg deeper faithful scope r
  | .unary _ a => FaithfulNode reg deeper faithful scope a
  | .index t i => FaithfulNode reg deeper faithful scope t ∧ FaithfulNode reg deeper faithful scope i
  | .ternary c t e =>
    FaithfulNode reg deeper faithful scope c ∧ FaithfulNode reg deeper faithful scope t ∧
      FaithfulNode reg deeper faithful scope e
  | .array es => FaithfulAll reg deeper faithful scope es
  | _ => True

def FaithfulAll (reg : Registry D) (deeper : Ast D → Except Error (Ast D)) (faithful : List String → Ast D → Prop)
    (scope : List String) : List (Ast D) → Prop
  | [] => True
  | a :: as => FaithfulNode reg deeper faithful scope a ∧ FaithfulAll reg deeper faithful scope as

def FaithfulFields (reg : Registry D) (deeper : Ast D → Except Error (Ast D)) (faithful : List String → Ast D → Prop)
    (scope : List String) : List String → List (Ast D) → Prop
  | name :: names, v :: vs =>
    FaithfulNode reg deeper faithful scope v ∧ FaithfulFields reg deeper faithful (name :: scope) names vs
  | _, _ => True

end

/-- The expansion of an expression with the levels that are left inlines cleanly. -/
def Faithful (reg : Registry D) : Nat → List String → Ast D → Prop
  | 0 => fun _ _ => True
  | levels + 1 => FaithfulNode reg (expandDefined reg levels) (Faithful reg levels)

section
variable {m : Meaning D M} {reg : Registry D} {σ : List (String × M)}

theorem both_eq_ok {α β : Type} {x : Except Error α} {y : Except Error β} {a : α} {b : β} :
    both x y = .ok (a, b) ↔ x = .ok a ∧ y = .ok b := by
  cases x <;> cases y <;> simp [both, bind, Except.bind, pure, Except.pure]

theorem readAll_eq_map (m : Meaning D M) (ρ : List (String × M)) (as : List (Ast D)) : m.readAll ρ as = as.map (m.read ρ) := by
  induction as with
  | nil => rw [Meaning.readAll, List.map_nil]
  | cons a as ih => rw [Meaning.readAll, ih, List.map_cons]

theorem related_call (m : Meaning D M) (σ : List (String × M)) (entry : FuncEntry D) (args : List (Ast D)) :
    Related m (σ.map (·.1)) (callReplacements entry args)
      (entry.definedParamNames.zip (args.map (m.read σ))).reverse σ := by
  have hlocals : (entry.definedParamNames.zip (args.map (m.read σ))).reverse =
      (callLocals entry args).map fun x => (x.1, m.read σ x.2) := by
    rw [callLocals, List.map_reverse, List.zip_map_right]
    rfl
  have hname : ∀ n, m.nameIn (entry.definedParamNames.zip (args.map (m.read σ))).reverse n =
      (((callLocals entry args).lookup n).map (m.read σ)).getD (m.name n) := by
    intro n
    rw [Meaning.nameIn, hlocals, lookup_map_snd]
  have hreplacement : ∀ n, (callReplacements entry args).lookup n =
      ((callLocals entry args).lookup n).map fun e => ⟨e, [], false⟩ := fun n =>
    lookup_map_snd (fun e : Ast D => (⟨e, [], false⟩ : Replacement D)) (callLocals entry args) n
  refine ⟨fun n hnone hn => ?_, fun n r hr _ => ?_, fun n r hr hfield => ?_⟩
  · rw [hreplacement, Option.map_eq_none_iff] at hnone
    have hlookup : σ.lookup n = none := by
      refine List.lookup_eq_none_iff.mpr fun x hx => ?_
      simp only [bne_iff_ne, ne_eq]
      rintro rfl
      exact hn (List.mem_map_of_mem hx)
    rw [hname, hnone, Meaning.nameIn, hlookup]
    rfl
  · rw [hreplacement] at hr
    obtain ⟨e, he, rfl⟩ := Option.map_eq_some_iff.mp hr
    rw [hname, he]
    rfl
  · rw [hreplacement] at hr
    obtain ⟨e, -, rfl⟩ := Option.map_eq_some_iff.mp hr
    cases hfield

theorem localsOf_callReplacements (entry : FuncEntry D) (args : List (Ast D)) :
    localsOf (callReplacements entry args) = callLocals entry args := by
  simp [localsOf, callReplacements, Function.comp_def]

theorem inlinedFunction_eq_some {name : String} {entry : FuncEntry D} {body : Ast D}
    (h : inlinedFunction reg name = some (entry, body)) :
    reg.find name = some entry ∧ entry.definedBody = some body ∧ entry.definedReturnFields = [] := by
  unfold inlinedFunction at h
  obtain ⟨entry', hfind, h⟩ := Option.bind_eq_some_iff.mp h
  obtain ⟨body', hbody, h⟩ := Option.bind_eq_some_iff.mp h
  obtain ⟨hcond, h⟩ := Option.ite_none_right_eq_some.mp h
  cases h
  exact ⟨hfind, hbody, by simpa using (Bool.and_eq_true_iff.mp hcond).2⟩

theorem read_inlined (hm : m.Defines reg) {name : String} {entry : FuncEntry D} {body : Ast D} {args : List (Ast D)}
    {argNames : List (Option String)} (hinlined : inlinedFunction reg name = some (entry, body))
    (hclean : CleanCall (σ.map (·.1)) entry body args argNames) (harity : entry.definedParamNames.length = args.length) :
    m.read σ (inlineLocals (callLocals entry args) body) = m.call name (args.map (m.read σ)) argNames := by
  obtain ⟨hfind, hbody, hfields⟩ := inlinedFunction_eq_some hinlined
  have hbind : callBindArgs entry (args.map (m.read σ)) argNames = .ok (args.map (m.read σ)) := by
    rw [callBindArgs_map, hclean.inOrder]
    rfl
  rw [hm name entry body _ argNames _ hfind hbody hfields hbind (by simpa using harity), ← localsOf_callReplacements]
  exact read_inlineLocals (related_call m σ entry args) body hclean.clean

variable {deeper : Ast D → Except Error (Ast D)} {faithful : List String → Ast D → Prop}

def KeepsMeaning (m : Meaning D M) (deeper : Ast D → Except Error (Ast D)) (faithful : List String → Ast D → Prop) : Prop :=
  ∀ (σ : List (String × M)) (a r : Ast D), deeper a = .ok r → faithful (σ.map (·.1)) a → m.read σ r = m.read σ a

mutual

theorem read_expandNode (hm : m.Defines reg) (hdeeper : KeepsMeaning m deeper faithful) (σ : List (String × M)) :
    ∀ (a r : Ast D), expandNode reg deeper a = .ok r →
      FaithfulNode reg deeper faithful (σ.map (·.1)) a → m.read σ r = m.read σ a
  | .call name args argNames, r, h, hfaithful => by
    rw [FaithfulNode] at hfaithful
    rw [expandNode] at h
    obtain ⟨args', hargs, h⟩ := bind_eq_ok.mp h
    have hread := readAll_expandAll hm hdeeper σ args args' hargs hfaithful.1
    rw [readAll_eq_map, readAll_eq_map] at hread
    rw [Meaning.read, readAll_eq_map, ← hread]
    cases hinlined : inlinedFunction reg name with
    | none =>
      rw [hinlined] at h
      cases h
      rw [Meaning.read, readAll_eq_map]
    | some found =>
      obtain ⟨entry, body⟩ := found
      obtain ⟨hclean, hbody⟩ := hfaithful.2 args' entry body hargs hinlined
      rw [hinlined] at h
      simp only at h
      split at h
      · cases h
      · rename_i harity
        rw [hdeeper σ _ r h hbody]
        exact read_inlined hm hinlined hclean (not_not.mp harity)
  | .record names values, r, h, hfaithful => by
    rw [FaithfulNode] at hfaithful
    rw [expandNode] at h
    obtain ⟨values', hvalues, h⟩ := bind_eq_ok.mp h
    cases h
    rw [Meaning.read, Meaning.read, readFields_expandAll hm hdeeper σ names values values' hvalues hfaithful]
  | .binary op a b, r, h, hfaithful => by
    rw [FaithfulNode] at hfaithful
    rw [expandNode] at h
    obtain ⟨⟨a', b'⟩, hboth, h⟩ := bind_eq_ok.mp h
    obtain ⟨ha, hb⟩ := both_eq_ok.mp hboth
    cases h
    rw [Meaning.read, Meaning.read, read_expandNode hm hdeeper σ a a' ha hfaithful.1,
      read_expandNode hm hdeeper σ b b' hb hfaithful.2]
  | .unary op a, r, h, hfaithful => by
    rw [FaithfulNode] at hfaithful
    rw [expandNode] at h
    obtain ⟨a', ha, h⟩ := bind_eq_ok.mp h
    cases h
    rw [Meaning.read, Meaning.read, read_expandNode hm hdeeper σ a a' ha hfaithful]
  | .index t i, r, h, hfaithful => by
    rw [FaithfulNode] at hfaithful
    rw [expandNode] at h
    obtain ⟨⟨t', i'⟩, hboth, h⟩ := bind_eq_ok.mp h
    obtain ⟨ht, hi⟩ := both_eq_ok.mp hboth
    cases h
    rw [Meaning.read, Meaning.read, read_expandNode hm hdeeper σ t t' ht hfaithful.1,
      read_expandNode hm hdeeper σ i i' hi hfaithful.2]
  | .ternary c t e, r, h, hfaithful => by
    rw [FaithfulNode] at hfaithful
    rw [expandNode] at h
    obtain ⟨⟨c', t', e'⟩, hboth, h⟩ := bind_eq_ok.mp h
    obtain ⟨hc, hboth'⟩ := both_eq_ok.mp hboth
    obtain ⟨ht, he⟩ := both_eq_ok.mp hboth'
    cases h
    rw [Meaning.read, Meaning.read, read_expandNode hm hdeeper σ c c' hc hfaithful.1,
      read_expandNode hm hdeeper σ t t' ht hfaithful.2.1, read_expandNode hm hdeeper σ e e' he hfaithful.2.2]
  | .array es, r, h, hfaithful => by
    rw [FaithfulNode] at hfaithful
    rw [expandNode] at h
    obtain ⟨es', hes, h⟩ := bind_eq_ok.mp h
    cases h
    rw [Meaning.read, Meaning.read, readAll_expandAll hm hdeeper σ es es' hes hfaithful]
  | .identifier _, r, h, _ | .producerAccess _ _ _ _, r, h, _ | .fieldAccess _ _, r, h, _ | .fieldOf _ _, r, h, _
  | .chainAccess _, r, h, _ | .number _, r, h, _ | .int64 _, r, h, _ | .bool _, r, h, _ | .string _, r, h, _
  | .param _, r, h, _ => by
    rw [expandNode] at h
    cases h
    rfl

theorem readAll_expandAll (hm : m.Defines reg) (hdeeper : KeepsMeaning m deeper faithful) (σ : List (String × M)) :
    ∀ (as rs : List (Ast D)), expandAll reg deeper as = .ok rs →
      FaithfulAll reg deeper faithful (σ.map (·.1)) as → m.readAll σ rs = m.readAll σ as
  | [], rs, h, _ => by
    rw [expandAll] at h
    cases h
    rfl
  | a :: as, rs, h, hfaithful => by
    rw [FaithfulAll] at hfaithful
    rw [expandAll] at h
    obtain ⟨a', ha, h⟩ := bind_eq_ok.mp h
    obtain ⟨as', has, h⟩ := bind_eq_ok.mp h
    cases h
    rw [Meaning.readAll, Meaning.readAll, read_expandNode hm hdeeper σ a a' ha hfaithful.1,
      readAll_expandAll hm hdeeper σ as as' has hfaithful.2]

theorem readFields_expandAll (hm : m.Defines reg) (hdeeper : KeepsMeaning m deeper faithful) (σ : List (String × M)) :
    ∀ (names : List String) (vs rs : List (Ast D)), expandAll reg deeper vs = .ok rs →
      FaithfulFields reg deeper faithful (σ.map (·.1)) names vs → m.readFields σ names rs = m.readFields σ names vs
  | name :: names, v :: vs, rs, h, hfaithful => by
    rw [FaithfulFields] at hfaithful
    rw [expandAll] at h
    obtain ⟨v', hv, h⟩ := bind_eq_ok.mp h
    obtain ⟨vs', hvs, h⟩ := bind_eq_ok.mp h
    cases h
    have hvalue := read_expandNode hm hdeeper σ v v' hv hfaithful.1
    have hrest := readFields_expandAll hm hdeeper ((name, m.read σ v) :: σ) names vs vs' hvs hfaithful.2
    rw [Meaning.readFields, Meaning.readFields, hvalue, hrest]
  | [], vs, rs, _, _ => by simp only [Meaning.readFields]
  | name :: names, [], rs, h, _ => by
    rw [expandAll] at h
    cases h
    rfl

end

theorem read_expandDefined (hm : m.Defines reg) (levels : Nat) (σ : List (String × M)) (a r : Ast D)
    (h : expandDefined reg levels a = .ok r) (hfaithful : Faithful reg levels (σ.map (·.1)) a) :
    m.read σ r = m.read σ a := by
  induction levels generalizing σ a r with
  | zero => cases h
  | succ levels ih => exact read_expandNode hm ih σ a r h hfaithful

/-- An expression whose calls are inlined cleanly means what it did, and a call that is not inlined stays. -/
theorem inlineDefinedCalls_read {m : Meaning D M} (hm : m.Defines reg) (a r : Ast D) (h : inlineDefinedCalls reg a = .ok r)
    (hfaithful : Faithful reg inlineLevels [] a) :
    m.read [] r = m.read [] a ∧
      ∀ name args argNames, a = .call name args argNames → inlinedFunction reg name = none →
        ∃ args', expandAll reg (expandDefined reg 64) args = .ok args' ∧ r = .call name args' argNames := by
  refine ⟨read_expandDefined hm inlineLevels [] a r h hfaithful, ?_⟩
  rintro name args argNames rfl hnone
  have hexpand : expandNode reg (expandDefined reg 64) (.call name args argNames) = .ok r := h
  rw [expandNode] at hexpand
  obtain ⟨args', hargs, hexpand⟩ := bind_eq_ok.mp hexpand
  rw [hnone] at hexpand
  cases hexpand
  exact ⟨args', hargs, rfl⟩

end

section
variable [Double D] {reg : Registry D} {indexed : Bool} {env : Env D}

end

def namesRead : Meaning Int (List String) where
  number _ := []
  int64 _ := []
  bool _ := []
  string _ := []
  array es := es.flatten
  record _ vs := vs.flatten
  name n := [n]
  param _ := []
  field x _ := x
  producer _ args _ _ := args.flatten
  binary _ l r := l ++ r
  unary _ a := a
  call _ args _ := args.flatten
  index t i := t ++ i
  ternary c t e := c ++ t ++ e

def oneParameter (body : Ast Int) : Registry Int := { entries := [{ name := "lag", definedBody := some body, definedParamNames := ["p"] }] }

theorem namesRead_defines {body : Ast Int} (hbody : ∀ x, namesRead.read [("p", x)] body = x) :
    namesRead.Defines (oneParameter body) := by
  intro name entry body' args argNames ordered hfind hsome _ hbind harity
  have hentry := List.mem_of_find?_eq_some hfind
  obtain rfl := List.mem_singleton.mp hentry
  obtain rfl := Option.some.inj hsome
  obtain ⟨x, rfl⟩ := List.length_eq_one_iff.mp (show ordered.length = 1 from harity.symm)
  obtain ⟨hlength, hmem⟩ := callBindArgs_mem hbind
  obtain ⟨y, rfl⟩ := List.length_eq_one_iff.mp (show args.length = 1 from hlength.symm)
  obtain rfl := List.mem_singleton.mp (hmem x List.mem_cons_self)
  exact (List.append_nil x).trans (hbody x).symm

/-- `fn lag(p) => p[1]`. -/
def lagBody : Ast Int := .index (.identifier "p") (.number 1)

theorem read_lagBody (x : List String) : namesRead.read [("p", x)] lagBody = x := by
  simp [lagBody, Meaning.read, Meaning.nameIn, namesRead]

theorem lag_inlined_read : ∃ r, inlineDefinedCalls (oneParameter lagBody) (.call "lag" [.identifier "close"] [none]) = .ok r ∧
    (namesRead.read [] r = namesRead.read [] (.call "lag" [.identifier "close"] [none]) ∧
      ∀ name args argNames, (.call "lag" [.identifier "close"] [none] : Ast Int) = .call name args argNames →
        inlinedFunction (oneParameter lagBody) name = none →
        ∃ args', expandAll (oneParameter lagBody) (expandDefined (oneParameter lagBody) 64) args = .ok args' ∧
          r = .call name args' argNames) := by
  have hinlined : inlineDefinedCalls (oneParameter lagBody) (.call "lag" [.identifier "close"] [none]) =
      .ok (.index (.identifier "close") (.number 1)) := rfl
  have hfaithful : Faithful (oneParameter lagBody) inlineLevels [] (.call "lag" [.identifier "close"] [none]) := by
    refine ⟨⟨trivial, trivial⟩, fun args' entry body hargs hfound => ?_⟩
    cases hargs
    cases hfound
    refine ⟨⟨rfl, ?_, trivial⟩, trivial, trivial⟩
    exact fun n _ => List.not_mem_nil
  exact ⟨_, hinlined, inlineDefinedCalls_read (namesRead_defines read_lagBody) _ _ hinlined hfaithful⟩

/-- `fn lag(p) => [p[1]][0]`. -/
def listedBody : Ast Int := .index (.array [lagBody]) (.number 0)

/-- In `lag(close)` with an array around the parameter, `p` is read in place of `close`. -/
theorem listed_parameter_stays : namesRead.Defines (oneParameter listedBody) ∧
    ∃ r, inlineDefinedCalls (oneParameter listedBody) (.call "lag" [.identifier "close"] [none]) = .ok r ∧
      namesRead.read [] r = ["p"] ∧ namesRead.read [] (.call "lag" [.identifier "close"] [none]) = ["close"] := by
  refine ⟨namesRead_defines fun x => ?_, _, rfl, rfl, rfl⟩
  simp [listedBody, lagBody, Meaning.read, Meaning.readAll, Meaning.nameIn, namesRead]

end Cxpr.Model
