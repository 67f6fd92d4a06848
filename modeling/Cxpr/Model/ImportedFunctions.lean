import Cxpr.Lib.Upsert
import Cxpr.Registrations

/-! Functions of imported models (`src/model/compile/import.c`, and the part of `src/model/compile/compile.c` that fills the
    registry of a program). A document function of a child is copied to the registry of the parent under its qualified name,
    and so are the names that its bodies call. Default builtins are registered again, and nothing else is copied. -/

namespace Cxpr
variable {D U : Type}

namespace Importing

def joinNamespace (ns name : String) : String := ns ++ "." ++ name

/-- `strchr(name, '.')`. -/
def hasDot (name : String) : Bool := name.toList.contains '.'

def entryIsNamespaced (s : Slot D U) : Bool :=
  s.modelProducer.isNone && (s.definedBody.isSome || !s.definedReturnFields.isEmpty)

def nameShouldNamespace (source : Table D U) (name : String) : Bool :=
  !hasDot name && (source.find name).any entryIsNamespaced

def namespaceFunctionName (ns : String) (source : Table D U) (name : String) : String :=
  if nameShouldNamespace source name then joinNamespace ns name else name

mutual

/-- `cxpr_model_namespace_imported_ast`. -/
def namespaceImportedAst (ns : String) (source : Table D U) : Ast D → Ast D
  | .array es => .array (namespaceImportedAsts ns source es)
  | .record names values => .record names (namespaceImportedAsts ns source values)
  | .binary op l r => .binary op (namespaceImportedAst ns source l) (namespaceImportedAst ns source r)
  | .unary op a => .unary op (namespaceImportedAst ns source a)
  | .call name args argNames =>
    .call (namespaceFunctionName ns source name) (namespaceImportedAsts ns source args) argNames
  | .producerAccess name args argNames field =>
    .producerAccess (namespaceFunctionName ns source name) (namespaceImportedAsts ns source args) argNames field
  | .index t i => .index (namespaceImportedAst ns source t) (namespaceImportedAst ns source i)
  | .ternary c t e =>
    .ternary (namespaceImportedAst ns source c) (namespaceImportedAst ns source t) (namespaceImportedAst ns source e)
  | ast => ast

def namespaceImportedAsts (ns : String) (source : Table D U) : List (Ast D) → List (Ast D)
  | [] => []
  | a :: as => namespaceImportedAst ns source a :: namespaceImportedAsts ns source as

end

/-! ### Registering -/

def put (t : Table D U) (name : String) (f : Slot D U → Slot D U) : Table D U :=
  t.upsert (·.name == name) { name := name } f

/-- What `cxpr_model_register_imported_defined_function` makes of an entry. -/
def importedEntry (ns : String) (source : Table D U) (src s : Slot D U) : Slot D U :=
  { s.clearOwnedEntry with
    minArgs := src.minArgs
    maxArgs := src.maxArgs
    returnType := src.returnType
    definedBody := src.definedBody.map (namespaceImportedAst ns source)
    definedParamNames := src.definedParamNames
    definedParamFields := src.definedParamFields
    definedReturnFields := src.definedReturnFields.map fun p => (p.1, namespaceImportedAst ns source p.2) }

def qualifiedName (ns name : String) : String := if hasDot name then name else joinNamespace ns name

def registerImportedDefinedFunction (ns : String) (source t : Table D U) (src : Slot D U) : Table D U :=
  if entryIsNamespaced src then put t (qualifiedName ns src.name) (importedEntry ns source src) else t

/-- The default builtins: the entry of each, and the names that are registered along with a name. The time series functions
    are registered all at once. -/
structure Defaults (D U : Type) where
  entry : String → Option (Slot D U)
  batch : String → List String

def replaceWith (s old : Slot D U) : Slot D U := { s with name := old.name }

def registerDefaultNamed (b : Defaults D U) (t : Table D U) (name : String) : Table D U :=
  if (t.find name).isSome then t
  else (b.batch name).foldl (fun t n => ((b.entry n).map fun s => put t n (replaceWith s)).getD t) t

/-- `cxpr_model_import`, under its namespace: the outputs of the child, its exposed inputs and parameters, the producer that
    runs it, and its registry. -/
structure Import (D U : Type) where
  name : String
  outputs : List String
  params : List String
  producer : AstFunc D
  registry : Table D U

def producerEntry (i : Import D U) (s : Slot D U) : Slot D U :=
  { s.clearOwnedEntry with
    modelProducer := some i.producer
    minArgs := 0
    maxArgs := i.params.length
    returnType := some .struct
    definedParamNames := i.params }

def registerImportedEntry (b : Defaults D U) (i : Import D U) (t : Table D U) (src : Slot D U) : Table D U :=
  let t := if entryIsNamespaced src then t else registerDefaultNamed b t src.name
  registerImportedDefinedFunction i.name i.registry t src

/-- One import in the loop of `cxpr_model_compiled_register_imports`. -/
def registerImport (b : Defaults D U) (t : Table D U) (i : Import D U) : Table D U :=
  i.registry.foldl (registerImportedEntry b i) (put t i.name (producerEntry i))

/-- `cxpr_model_compiled_register_imports`, after the namespaces of `seen`. -/
def registerImports (b : Defaults D U) : List String → Table D U → List (Import D U) → Except Error (Table D U)
  | _, t, [] => .ok t
  | seen, t, i :: rest =>
    if i.outputs.isEmpty then .error ⟨.syntaxError, "Invalid model import"⟩
    else if i.name ∈ seen then .error ⟨.syntaxError, "Duplicate import namespace"⟩
    else registerImports b (seen ++ [i.name]) (registerImport b t i) rest

def registerRequired (b : Defaults D U) : Table D U → List String → Except Error (Table D U)
  | t, [] => .ok t
  | t, name :: rest =>
    let t := registerDefaultNamed b t name
    if (t.find name).isNone then .error ⟨.unknownFunction, "Unknown function '" ++ name ++ "'"⟩
    else registerRequired b t rest

inductive Definition (D : Type) where
  | fn (name : String) (params : List String) (body : Ast D)
  | recordFn (name : String) (params : List String) (fields : List (String × Ast D))

namespace Definition

def registration : Definition D → Registration D U
  | .fn name params body => .defineFn name params body
  | .recordFn name params fields => .defineRecordFn name params fields

def error : Definition D → Error
  | .fn _ _ _ => ⟨.syntaxError, "Too many parameters (max 16)"⟩
  | .recordFn _ _ _ => ⟨.syntaxError, "Invalid record function"⟩

def name : Definition D → String
  | .fn n _ _ | .recordFn n _ _ => n

end Definition

section
variable [Double D]

def define : Table D U → List (Definition D) → Except Error (Table D U)
  | t, [] => .ok t
  | t, d :: rest => if (d.registration : Registration D U).accepted then define (t.register d.registration) rest else .error d.error

/-- The registry of a program with the given imports, required defaults and functions. -/
def compileRegistry (b : Defaults D U) (imports : List (Import D U)) (required : List String) (functions : List (Definition D)) :
    Except Error (Table D U) := do
  let t ← registerImports b [] [] imports
  let t ← registerRequired b t required
  define t functions

end

/-- The registry of a program without index callbacks other than the lookback resolver of the model. -/
def programRegistry (t : Table D U) (resolver : Option (Ast D → Ast D → Context D → Except Error (Option (Value D)))) :
    Registry D :=
  t.registry { lookbackResolver := resolver }

section
variable {t : Table D U} {q m : String}

variable {f : Slot D U → Slot D U} {s : Slot D U} {i : Import D U} {t' : Table D U}

theorem find_put (hf : ∀ s, (f s).name = s.name) :
    (put t q f).find m = if m = q then some (f ((t.find q).getD { name := q })) else t.find m := by
  unfold put Table.find
  split
  · rename_i heq
    subst heq
    exact List.find?_upsert_same (fun _ => rfl) (fun s => by rw [hf]) (by simp) t
  · rename_i hne
    refine List.find?_upsert_other (fun s hs => ?_) (fun s => by rw [hf]) (by simpa using Ne.symm hne) t
    have hname : s.name = q := by simpa using hs
    simpa [hname] using Ne.symm hne

theorem name_importedEntry (ns : String) (source : Table D U) (src s : Slot D U) :
    (importedEntry ns source src s).name = s.name := s.name_clearOwnedEntry

theorem name_producerEntry (i : Import D U) (s : Slot D U) : (producerEntry i s).name = s.name := s.name_clearOwnedEntry

/-- What the source bears out of the default builtins: they have plain names, and nothing of a document. -/
structure Defaults.Regular (b : Defaults D U) : Prop where
  name : ∀ n s, b.entry n = some s → s.name = n
  plain : ∀ n s, b.entry n = some s → hasDot n = false
  batch : ∀ n s, b.entry n = some s → n ∈ b.batch n
  host : ∀ n s, b.entry n = some s → s.definedBody = none ∧ s.definedReturnFields = []
  producer : ∀ n s, b.entry n = some s → s.structProducer = none ∧ s.modelProducer = none
  handler : ∀ n s, b.entry n = some s → s.astFuncHandler = none

variable {b : Defaults D U}

theorem find_default (hb : b.Regular) (n : String) :
    (((b.entry n).map fun s => put t n (replaceWith s)).getD t).find m =
      if m = n ∧ (b.entry n).isSome then b.entry n else t.find m := by
  cases hentry : b.entry n with
  | none => simp
  | some s =>
    simp only [Option.map_some, Option.getD_some, Option.isSome_some, and_true]
    have hkeeps : ∀ old, (replaceWith s old).name = old.name := fun _ => rfl
    rw [find_put hkeeps]
    split
    · have hname := hb.name n s hentry
      have hold : ((t.find n).getD { name := n }).name = n := by
        cases hfind : t.find n with
        | none => rfl
        | some old => exact Table.find_name hfind
      rw [replaceWith, hold, ← hname]
    · rfl

theorem find_registerDefaultNamed (hb : b.Regular) (name : String) :
    (registerDefaultNamed b t name).find m = t.find m ∨
      (b.entry m).isSome ∧ (registerDefaultNamed b t name).find m = b.entry m := by
  unfold registerDefaultNamed
  split
  · exact .inl rfl
  · refine List.foldlRecOn (motive := fun t' : Table D U => t'.find m = t.find m ∨ (b.entry m).isSome ∧ t'.find m = b.entry m)
      (b.batch name) _ (.inl rfl) ?_
    intro t' ht' n hn
    rw [find_default hb]
    split
    · rename_i hm
      obtain ⟨rfl, hsome⟩ := hm
      exact .inr ⟨hsome, rfl⟩
    · exact ht'

theorem find_registerDefaultNamed_self (hb : b.Regular) (hs : b.entry m = some s)
    (ht : t.find m = none ∨ t.find m = some s) : (registerDefaultNamed b t m).find m = some s := by
  unfold registerDefaultNamed
  rcases ht with hnone | hsome
  · rw [hnone, Option.isSome_none, if_neg Bool.false_ne_true]
    have hmem := hb.batch m s hs
    obtain ⟨front, back, hbatch⟩ := List.append_of_mem hmem
    rw [hbatch, List.foldl_append, List.foldl_cons]
    refine List.foldlRecOn (motive := fun t' : Table D U => t'.find m = some s) back _ ?_ ?_
    · rw [find_default hb, if_pos ⟨rfl, by rw [hs]; rfl⟩, hs]
    · intro t' ht' n hn
      rw [find_default hb]
      split
      · rename_i hm
        rw [← hm.1, hs]
      · exact ht'
  · rw [hsome, Option.isSome_some, if_pos rfl, hsome]

/-! ### Entries that stay -/

/-- A step leaves the entry of a name alone, or makes it the builtin of that name. -/
def Kept (b : Defaults D U) (m : String) (t t' : Table D U) : Prop :=
  t'.find m = t.find m ∨ (b.entry m).isSome ∧ t'.find m = b.entry m

namespace Kept
variable {t' t'' : Table D U}

theorem refl (b : Defaults D U) (m : String) (t : Table D U) : Kept b m t t := .inl rfl

theorem trans (h : Kept b m t t') (h' : Kept b m t' t'') : Kept b m t t'' := by
  rcases h' with h' | h'
  · rcases h with h | h
    · exact .inl (h'.trans h)
    · exact .inr ⟨h.1, h'.trans h.2⟩
  · exact .inr h'

theorem dotted (h : Kept b m t t') (hb : b.Regular) (hm : hasDot m = true) : t'.find m = t.find m := by
  rcases h with h | ⟨hsome, -⟩
  · exact h
  · obtain ⟨s, hs⟩ := Option.isSome_iff_exists.mp hsome
    rw [hb.plain m s hs] at hm
    cases hm

theorem builtin (h : Kept b m t t') {s : Slot D U} (hs : b.entry m = some s) (ht : t.find m = some s) :
    t'.find m = some s := by
  rcases h with h | ⟨-, h⟩
  · rw [h, ht]
  · rw [h, hs]

theorem free (h : Kept b m t t') {s : Slot D U} (hs : b.entry m = some s) (ht : t.find m = none ∨ t.find m = some s) :
    t'.find m = none ∨ t'.find m = some s := by
  rcases h with h | ⟨-, h⟩
  · rwa [h]
  · exact .inr (h.trans hs)

end Kept

theorem kept_foldl {α : Type} {step : Table D U → α → Table D U} {l : List α} (h : ∀ a ∈ l, ∀ t, Kept b m t (step t a)) :
    Kept b m t (l.foldl step t) :=
  List.foldlRecOn (motive := Kept b m t) l step (.refl b m t) fun t' ht' a ha => ht'.trans (h a ha t')

theorem kept_put (hf : ∀ s, (f s).name = s.name) (hm : m ≠ q) : Kept b m t (put t q f) :=
  .inl (by rw [find_put hf, if_neg hm])

theorem kept_registerImportedEntry (hb : b.Regular) {src : Slot D U}
    (h : entryIsNamespaced src = true → m ≠ qualifiedName i.name src.name) : Kept b m t (registerImportedEntry b i t src) := by
  unfold registerImportedEntry registerImportedDefinedFunction
  cases hns : entryIsNamespaced src with
  | true => exact kept_put (name_importedEntry _ _ src) (h hns)
  | false => exact find_registerDefaultNamed hb src.name

theorem kept_registerImport (hb : b.Regular) (hname : m ≠ i.name)
    (h : ∀ src ∈ i.registry, entryIsNamespaced src = true → m ≠ qualifiedName i.name src.name) :
    Kept b m t (registerImport b t i) :=
  (kept_put (name_producerEntry i) hname).trans
    (kept_foldl fun src hsrc _ => kept_registerImportedEntry hb (h src hsrc))

theorem kept_registerImports (hb : b.Regular) {seen : List String} {imports : List (Import D U)}
    (hname : ∀ i ∈ imports, m ≠ i.name)
    (h : ∀ i ∈ imports, ∀ src ∈ i.registry, entryIsNamespaced src = true → m ≠ qualifiedName i.name src.name)
    (hok : registerImports b seen t imports = .ok t') : Kept b m t t' := by
  induction imports generalizing seen t with
  | nil =>
    cases hok
    exact .refl b m _
  | cons i rest ih =>
    rw [registerImports] at hok
    split at hok
    · cases hok
    split at hok
    · cases hok
    have hfirst : Kept b m t (registerImport b t i) := kept_registerImport hb (hname i (by simp)) (h i (by simp))
    exact hfirst.trans (ih (fun j hj => hname j (by simp [hj])) (fun j hj => h j (by simp [hj])) hok)

theorem kept_registerRequired (hb : b.Regular) {names : List String}
    (hok : registerRequired b t names = .ok t') : Kept b m t t' := by
  induction names generalizing t with
  | nil =>
    cases hok
    exact .refl b m _
  | cons name rest ih =>
    rw [registerRequired] at hok
    split at hok
    · cases hok
    · have hfirst : Kept b m t (registerDefaultNamed b t name) := find_registerDefaultNamed hb name
      exact hfirst.trans (ih hok)

theorem kept_define [Double D] {functions : List (Definition D)} (hname : ∀ d ∈ functions, m ≠ d.name)
    (hok : define t functions = .ok t') : Kept b m t t' := by
  induction functions generalizing t with
  | nil =>
    cases hok
    exact .refl b m _
  | cons d rest ih =>
    rw [define] at hok
    split at hok
    · have hne : m ≠ (d.registration : Registration D U).name := by
        have hd := hname d (by simp)
        cases d <;> exact hd
      have hfirst : Kept b m t (t.register d.registration) := .inl (by rw [Table.find_register, if_neg fun h => hne h.2])
      exact hfirst.trans (ih (fun e he => hname e (by simp [he])) hok)
    · cases hok

theorem registerImports_split {seen : List String} {pre post : List (Import D U)}
    (hok : registerImports b seen t (pre ++ i :: post) = .ok t') :
    ∃ t₁ seen', registerImports b seen t pre = .ok t₁ ∧ registerImports b seen' (registerImport b t₁ i) post = .ok t' := by
  induction pre generalizing seen t with
  | nil =>
    rw [List.nil_append, registerImports] at hok
    split at hok
    · cases hok
    split at hok
    · cases hok
    exact ⟨t, _, rfl, hok⟩
  | cons j pre ih =>
    rw [List.cons_append, registerImports] at hok
    split at hok
    · cases hok
    split at hok
    · cases hok
    obtain ⟨t₁, seen', hpre, hpost⟩ := ih hok
    refine ⟨t₁, seen', ?_, hpost⟩
    rw [registerImports, if_neg (by assumption), if_neg (by assumption)]
    exact hpre

/-! ### What compiled registries have in common -/

/-- An entry of a compiled program: a builtin, a child or a function of a document. -/
structure Tidy (s : Slot D U) : Prop where
  structProducer : s.structProducer = none
  astFuncHandler : s.astFuncHandler = none
  document : entryIsNamespaced s = true → s.paramNames = [] ∧ s.argTypes = none

structure TidyTable (t : Table D U) : Prop where
  names : (t.map Slot.name).Nodup
  tidy : ∀ s ∈ t, Tidy s

theorem names_upsert (hf : ∀ s, (f s).name = s.name) (t : Table D U) :
    (put t q f).map Slot.name = t.map Slot.name ∨
      q ∉ t.map Slot.name ∧ (put t q f).map Slot.name = t.map Slot.name ++ [q] := by
  unfold put
  induction t with
  | nil => exact .inr ⟨by simp, by simp [List.upsert, hf]⟩
  | cons s t ih =>
    rw [List.upsert]
    split
    · exact .inl (by rw [List.map_cons, List.map_cons, hf])
    · rename_i hs
      have hne : q ≠ s.name := fun heq => hs (by simp [heq])
      rcases ih with ih | ⟨hq, ih⟩
      · exact .inl (by rw [List.map_cons, List.map_cons, ih])
      · refine .inr ⟨?_, by rw [List.map_cons, List.map_cons, ih, List.cons_append]⟩
        rw [List.map_cons, List.mem_cons, not_or]
        exact ⟨hne, hq⟩

theorem TidyTable.put (h : TidyTable t) {f : Slot D U → Slot D U} (hf : ∀ s, (f s).name = s.name)
    (htidy : ∀ s, Tidy s → Tidy (f s)) : TidyTable (put t q f) := by
  constructor
  · rcases names_upsert hf t with hnames | ⟨hq, hnames⟩
    · rw [hnames]
      exact h.names
    · rw [hnames]
      exact List.nodup_append_comm.mp (List.nodup_cons.mpr ⟨hq, h.names⟩)
  · intro s hs
    rcases List.mem_upsert hs with hs | ⟨x, hx, rfl⟩
    · exact h.tidy s hs
    · rcases List.mem_cons.mp hx with rfl | hx
      · exact htidy _ ⟨rfl, rfl, fun hns => by cases hns⟩
      · exact htidy x (h.tidy x hx)

theorem structProducer_clearOwnedEntry (s : Slot D U) : s.clearOwnedEntry.structProducer = s.structProducer := by
  show s.freeStructFields.structProducer = s.structProducer
  unfold Slot.freeStructFields
  split <;> rfl

theorem tidy_importedEntry (ns : String) (source : Table D U) (src : Slot D U) (h : Tidy s) :
    Tidy (importedEntry ns source src s) :=
  ⟨(structProducer_clearOwnedEntry s).trans h.structProducer, rfl, fun _ => ⟨rfl, rfl⟩⟩

theorem tidy_producerEntry (i : Import D U) (h : Tidy s) : Tidy (producerEntry i s) :=
  ⟨(structProducer_clearOwnedEntry s).trans h.structProducer, rfl, fun _ => ⟨rfl, rfl⟩⟩

theorem register_eq_put [Double D] {d : Definition D} (h : (d.registration : Registration D U).accepted = true) :
    t.register d.registration = put t d.name ((d.registration : Registration D U).update t) := by
  have hname : (d.registration : Registration D U).name = d.name := by cases d <;> rfl
  unfold Table.register put
  rw [if_pos h, hname]
  cases hfind : t.find d.name with
  | none =>
    rw [List.upsert_of_find?_eq_none hfind]
    cases d <;> rfl
  | some s => rw [List.upsert_of_find?_eq_some hfind]

namespace TidyTable

theorem registerDefaultNamed (hb : b.Regular) (h : TidyTable t) (name : String) : TidyTable (registerDefaultNamed b t name) := by
  unfold Importing.registerDefaultNamed
  split
  · exact h
  · refine List.foldlRecOn (motive := TidyTable) (b.batch name) _ h ?_
    intro t' ht' n hn
    cases hentry : b.entry n with
    | none => exact ht'
    | some s =>
      refine ht'.put (fun _ => rfl) fun old _ => ⟨(hb.producer n s hentry).1, hb.handler n s hentry, fun hns => ?_⟩
      have hhost := hb.host n s hentry
      simp [entryIsNamespaced, replaceWith, hhost.1, hhost.2] at hns

theorem registerImport (hb : b.Regular) (h : TidyTable t) (i : Import D U) : TidyTable (registerImport b t i) := by
  refine List.foldlRecOn (motive := TidyTable) i.registry _
    (h.put (name_producerEntry i) fun s hs => tidy_producerEntry i hs) ?_
  intro t' ht' src hsrc
  unfold registerImportedEntry registerImportedDefinedFunction
  cases hns : entryIsNamespaced src with
  | true => exact ht'.put (name_importedEntry _ _ src) fun s hs => tidy_importedEntry _ _ src hs
  | false => exact ht'.registerDefaultNamed hb src.name

variable {t' : Table D U}

theorem registerImports (hb : b.Regular) {seen : List String} {imports : List (Import D U)} (h : TidyTable t)
    (hok : registerImports b seen t imports = .ok t') : TidyTable t' := by
  induction imports generalizing seen t with
  | nil =>
    cases hok
    exact h
  | cons i rest ih =>
    rw [Importing.registerImports] at hok
    split at hok
    · cases hok
    split at hok
    · cases hok
    exact ih (h.registerImport hb i) hok

theorem registerRequired (hb : b.Regular) {names : List String} (h : TidyTable t)
    (hok : registerRequired b t names = .ok t') : TidyTable t' := by
  induction names generalizing t with
  | nil =>
    cases hok
    exact h
  | cons name rest ih =>
    rw [Importing.registerRequired] at hok
    split at hok
    · cases hok
    · exact ih (h.registerDefaultNamed hb name) hok

theorem define [Double D] {functions : List (Definition D)} (h : TidyTable t)
    (hok : define t functions = .ok t') : TidyTable t' := by
  induction functions generalizing t with
  | nil =>
    cases hok
    exact h
  | cons d rest ih =>
    rw [Importing.define] at hok
    split at hok
    · refine ih ?_ hok
      rename_i haccepted
      rw [register_eq_put haccepted]
      exact h.put (fun s => Registration.name_update t s _) fun s hs => by
        cases d with
        | fn name params body =>
          exact ⟨(structProducer_clearOwnedEntry s).trans hs.structProducer, rfl, fun _ => ⟨rfl, rfl⟩⟩
        | recordFn name params fields => exact ⟨rfl, rfl, fun _ => ⟨rfl, rfl⟩⟩
    · cases hok

end TidyTable

theorem tidy_compileRegistry [Double D] (hb : b.Regular) {imports : List (Import D U)} {required : List String}
    {functions : List (Definition D)} (hok : compileRegistry b imports required functions = .ok t) : TidyTable t := by
  obtain ⟨t₁, himports, hok⟩ := bind_eq_ok.mp hok
  obtain ⟨t₂, hrequired, hok⟩ := bind_eq_ok.mp hok
  have hempty : TidyTable ([] : Table D U) := ⟨List.nodup_nil, fun s hs => by cases hs⟩
  exact ((hempty.registerImports hb himports).registerRequired hb hrequired).define hok

theorem hasDot_joinNamespace (ns name : String) : hasDot (joinNamespace ns name) = true := by
  simp [hasDot, joinNamespace]

theorem hasDot_qualifiedName (ns name : String) : hasDot (qualifiedName ns name) = true := by
  unfold qualifiedName
  split
  · assumption
  · exact hasDot_joinNamespace ns name

/-- Nothing but a function of the child is registered under the qualified name of the function. -/
structure Sole (pre post : List (Import D U)) (child : Import D U) (functions : List (Definition D)) (n : String) : Prop where
  producer : ∀ i ∈ pre ++ child :: post, i.name ≠ qualifiedName child.name n
  sibling : ∀ i ∈ pre ++ post, ∀ s ∈ i.registry, entryIsNamespaced s = true →
    qualifiedName i.name s.name ≠ qualifiedName child.name n
  fellow : ∀ s ∈ child.registry, entryIsNamespaced s = true → s.name ≠ n →
    qualifiedName child.name s.name ≠ qualifiedName child.name n
  definition : ∀ d ∈ functions, d.name ≠ qualifiedName child.name n

structure Untaken (imports : List (Import D U)) (functions : List (Definition D)) (n : String) : Prop where
  producer : ∀ i ∈ imports, i.name ≠ n
  definition : ∀ d ∈ functions, d.name ≠ n

section
variable [Double D] {pre post : List (Import D U)} {child : Import D U} {required : List String} {functions : List (Definition D)}
  {parent : Table D U} {n : String} {src : Slot D U}

omit [Double D] in
theorem exists_split_of_find (htidy : TidyTable child.registry) (hsrc : child.registry.find n = some src) :
    ∃ front back, child.registry = front ++ src :: back ∧ ∀ s ∈ front ++ back, s.name ≠ n := by
  have hmem : src ∈ child.registry := List.mem_of_find?_eq_some hsrc
  obtain ⟨front, back, hsplit⟩ := List.append_of_mem hmem
  have hname : src.name = n := Table.find_name hsrc
  refine ⟨front, back, hsplit, ?_⟩
  have hnodup := htidy.names
  rw [hsplit, List.map_append, List.map_cons] at hnodup
  have hnot := (List.nodup_cons.mp (List.nodup_middle.mp hnodup)).1
  rw [← List.map_append, hname] at hnot
  intro s hs heq
  exact hnot (List.mem_map.mpr ⟨s, hs, heq⟩)

theorem find_imported (hb : b.Regular) (htidy : TidyTable child.registry)
    (hok : compileRegistry b (pre ++ child :: post) required functions = .ok parent)
    (hsrc : child.registry.find n = some src) (hns : entryIsNamespaced src = true) (hsole : Sole pre post child functions n) :
    parent.find (qualifiedName child.name n) =
      some (importedEntry child.name child.registry src { name := qualifiedName child.name n }) := by
  obtain ⟨t₁, himports, hok⟩ := bind_eq_ok.mp hok
  obtain ⟨t₂, hrequired, hdefine⟩ := bind_eq_ok.mp hok
  obtain ⟨t₀, seen, hpre, hpost⟩ := registerImports_split himports
  obtain ⟨front, back, hsplit, hothers⟩ := exists_split_of_find htidy hsrc
  have hname : src.name = n := Table.find_name hsrc
  have hdot := hasDot_qualifiedName child.name n
  have hfellow : ∀ s ∈ front ++ back, ∀ t, Kept b (qualifiedName child.name n) t (registerImportedEntry b child t s) := by
    intro s hs t
    have hmem : s ∈ child.registry := by
      rw [hsplit]
      rcases List.mem_append.mp hs with h | h <;> simp [h]
    exact kept_registerImportedEntry hb fun hns => (hsole.fellow s hmem hns (hothers s hs)).symm
  have hbefore : t₀.find (qualifiedName child.name n) = none := by
    have hkept : Kept b (qualifiedName child.name n) [] t₀ := kept_registerImports hb
      (fun i hi => (hsole.producer i (by simp [hi])).symm)
      (fun i hi s hs hns => (hsole.sibling i (by simp [hi]) s hs hns).symm) hpre
    exact hkept.dotted hb hdot
  have hchild : (registerImport b t₀ child).find (qualifiedName child.name n) =
      some (importedEntry child.name child.registry src { name := qualifiedName child.name n }) := by
    have hfold : registerImport b t₀ child =
        (front ++ src :: back).foldl (registerImportedEntry b child) (put t₀ child.name (producerEntry child)) := by
      rw [← hsplit]
      rfl
    have hproducer : Kept b (qualifiedName child.name n) t₀ (put t₀ child.name (producerEntry child)) :=
      kept_put (name_producerEntry child) (hsole.producer child (by simp)).symm
    have hfront := hproducer.trans (kept_foldl fun s (hs : s ∈ front) t => hfellow s (by simp [hs]) t)
    rw [hfold, List.foldl_append, List.foldl_cons]
    generalize front.foldl (registerImportedEntry b child) _ = t' at hfront ⊢
    have hnone : t'.find (qualifiedName child.name n) = none := (hfront.dotted hb hdot).trans hbefore
    have hstep : (registerImportedEntry b child t' src).find (qualifiedName child.name n) =
        some (importedEntry child.name child.registry src { name := qualifiedName child.name n }) := by
      unfold registerImportedEntry registerImportedDefinedFunction
      rw [if_pos hns, if_pos hns, hname, find_put (name_importedEntry _ _ src), if_pos rfl, hnone, Option.getD_none]
    have hback : Kept b (qualifiedName child.name n) (registerImportedEntry b child t' src)
        (back.foldl (registerImportedEntry b child) (registerImportedEntry b child t' src)) :=
      kept_foldl fun s hs t => hfellow s (by simp [hs]) t
    rw [hback.dotted hb hdot, hstep]
  have hafter : Kept b (qualifiedName child.name n) (registerImport b t₀ child) t₁ := kept_registerImports hb
    (fun i hi => (hsole.producer i (by simp [hi])).symm)
    (fun i hi s hs hns => (hsole.sibling i (by simp [hi]) s hs hns).symm) hpost
  have hend := (hafter.trans (kept_registerRequired hb hrequired)).trans
    (kept_define (fun d hd => (hsole.definition d hd).symm) hdefine)
  rw [hend.dotted hb hdot, hchild]

theorem find_builtin (hb : b.Regular) (htidy : TidyTable child.registry)
    (hok : compileRegistry b (pre ++ child :: post) required functions = .ok parent)
    (hsrc : child.registry.find n = some src) (hns : entryIsNamespaced src = false) {s : Slot D U} (hs : b.entry n = some s)
    (huntaken : Untaken (pre ++ child :: post) functions n) : parent.find n = some s := by
  obtain ⟨t₁, himports, hok⟩ := bind_eq_ok.mp hok
  obtain ⟨t₂, hrequired, hdefine⟩ := bind_eq_ok.mp hok
  obtain ⟨t₀, seen, hpre, hpost⟩ := registerImports_split himports
  obtain ⟨front, back, hsplit, -⟩ := exists_split_of_find htidy hsrc
  have hname : src.name = n := Table.find_name hsrc
  have hplain := hb.plain n s hs
  have hqualified : ∀ ns name, n ≠ qualifiedName ns name := by
    rintro ns name rfl
    rw [hasDot_qualifiedName] at hplain
    cases hplain
  have hentry : ∀ (i : Import D U) src t, Kept b n t (registerImportedEntry b i t src) :=
    fun i src t => kept_registerImportedEntry hb fun _ => hqualified _ _
  have hbefore : t₀.find n = none ∨ t₀.find n = some s := by
    have hkept : Kept b n [] t₀ := kept_registerImports hb (fun i hi => (huntaken.producer i (by simp [hi])).symm)
      (fun i hi src hsrc _ => hqualified _ _) hpre
    exact hkept.free hs (.inl rfl)
  have hchild : (registerImport b t₀ child).find n = some s := by
    have hfold : registerImport b t₀ child =
        (front ++ src :: back).foldl (registerImportedEntry b child) (put t₀ child.name (producerEntry child)) := by
      rw [← hsplit]
      rfl
    have hproducer : Kept b n t₀ (put t₀ child.name (producerEntry child)) :=
      kept_put (name_producerEntry child) (huntaken.producer child (by simp)).symm
    have hfront := hproducer.trans (kept_foldl fun src (_ : src ∈ front) t => hentry child src t)
    rw [hfold, List.foldl_append, List.foldl_cons]
    generalize front.foldl (registerImportedEntry b child) _ = t' at hfront ⊢
    have hstep : (registerImportedEntry b child t' src).find n = some s := by
      unfold registerImportedEntry registerImportedDefinedFunction
      rw [hns, if_neg Bool.false_ne_true, if_neg Bool.false_ne_true, hname]
      exact find_registerDefaultNamed_self hb hs (hfront.free hs hbefore)
    have hback : Kept b n (registerImportedEntry b child t' src)
        (back.foldl (registerImportedEntry b child) (registerImportedEntry b child t' src)) :=
      kept_foldl fun src _ t => hentry child src t
    exact hback.builtin hs hstep
  have hafter : Kept b n (registerImport b t₀ child) t₁ := kept_registerImports hb
    (fun i hi => (huntaken.producer i (by simp [hi])).symm) (fun i hi src hsrc _ => hqualified _ _) hpost
  have hend := (hafter.trans (kept_registerRequired hb hrequired)).trans
    (kept_define (fun d hd => (huntaken.definition d hd).symm) hdefine)
  exact hend.builtin hs hchild

end

end

end Importing
end Cxpr
