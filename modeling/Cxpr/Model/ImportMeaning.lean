import Cxpr.Eval.RenamedNodes
import Cxpr.Model.ImportedFunctions

/-! What an imported function means. Its copy in the parent evaluates as the function does in the child, as long as every name
    in the bodies it reaches is still the name of the same function: no base of a field access calls a function of the
    document, no two functions get the same qualified name, and the parent takes no name of a builtin. -/

namespace Cxpr
variable {D U : Type}

namespace Ast

mutual

def calls : Ast D → List String
  | .call name args _ => name :: callsList args
  | .producerAccess name args _ _ => name :: callsList args
  | .array es => callsList es
  | .record _ values => callsList values
  | .fieldOf base _ => calls base
  | .binary _ l r => calls l ++ calls r
  | .unary _ a => calls a
  | .index t i => calls t ++ calls i
  | .ternary c t e => calls c ++ (calls t ++ calls e)
  | .number _ | .int64 _ | .bool _ | .string _ | .identifier _ | .param _ | .fieldAccess _ _ | .chainAccess _ => []

def callsList : List (Ast D) → List String
  | [] => []
  | a :: as => calls a ++ callsList as

end

mutual

def numbers : Ast D → List D
  | .number v => [v]
  | .call _ args _ => numbersList args
  | .producerAccess _ args _ _ => numbersList args
  | .array es => numbersList es
  | .record _ values => numbersList values
  | .fieldOf base _ => numbers base
  | .binary _ l r => numbers l ++ numbers r
  | .unary _ a => numbers a
  | .index t i => numbers t ++ numbers i
  | .ternary c t e => numbers c ++ (numbers t ++ numbers e)
  | .int64 _ | .bool _ | .string _ | .identifier _ | .param _ | .fieldAccess _ _ | .chainAccess _ => []

def numbersList : List (Ast D) → List D
  | [] => []
  | a :: as => numbers a ++ numbersList as

end

variable {N : Set String} {L : Set D}

mutual

theorem within_of : ∀ {a : Ast D}, (∀ n ∈ a.calls, n ∈ N) → (∀ v ∈ a.numbers, v ∈ L) → a.Within N L
  | .call _ _ _, h, hv | .producerAccess _ _ _ _, h, hv =>
    ⟨h _ List.mem_cons_self, withinList_of (fun n hn => h n (List.mem_cons_of_mem _ hn)) hv⟩
  | .array _, h, hv | .record _ _, h, hv => withinList_of h hv
  | .fieldOf base _, h, hv => within_of (a := base) h hv
  | .unary _ a, h, hv => within_of (a := a) h hv
  | .binary _ _ _, h, hv | .index _ _, h, hv =>
    have hcalls := List.forall_mem_append.mp h
    have hnumbers := List.forall_mem_append.mp hv
    ⟨within_of hcalls.1 hnumbers.1, within_of hcalls.2 hnumbers.2⟩
  | .ternary _ _ _, h, hv =>
    have hcalls := List.forall_mem_append.mp h
    have hnumbers := List.forall_mem_append.mp hv
    have hcalls' := List.forall_mem_append.mp hcalls.2
    have hnumbers' := List.forall_mem_append.mp hnumbers.2
    ⟨within_of hcalls.1 hnumbers.1, within_of hcalls'.1 hnumbers'.1, within_of hcalls'.2 hnumbers'.2⟩
  | .number v, _, hv => hv v List.mem_cons_self
  | .int64 _, _, _ | .bool _, _, _ | .string _, _, _ | .identifier _, _, _ | .param _, _, _ | .fieldAccess _ _, _, _
  | .chainAccess _, _, _ => trivial

theorem withinList_of : ∀ {as : List (Ast D)}, (∀ n ∈ callsList as, n ∈ N) → (∀ v ∈ numbersList as, v ∈ L) → WithinList N L as
  | [], _, _ => trivial
  | _ :: _, h, hv =>
    have hcalls := List.forall_mem_append.mp h
    have hnumbers := List.forall_mem_append.mp hv
    ⟨within_of hcalls.1 hnumbers.1, withinList_of hcalls.2 hnumbers.2⟩

end

theorem mem_callsList {as : List (Ast D)} {n : String} : n ∈ callsList as ↔ ∃ a ∈ as, n ∈ a.calls := by
  induction as with
  | nil => simp [callsList]
  | cons a as ih => simp [callsList, ih]

theorem mem_numbersList {as : List (Ast D)} {v : D} : v ∈ numbersList as ↔ ∃ a ∈ as, v ∈ a.numbers := by
  induction as with
  | nil => simp [numbersList]
  | cons a as ih => simp [numbersList, ih]

mutual

def BasesKept (ρ : String → String) : Ast D → Prop
  | .fieldOf base _ => base.mapCalls ρ = base
  | .call _ args _ => BasesKeptList ρ args
  | .producerAccess _ args _ _ => BasesKeptList ρ args
  | .array es => BasesKeptList ρ es
  | .record _ values => BasesKeptList ρ values
  | .binary _ l r => BasesKept ρ l ∧ BasesKept ρ r
  | .unary _ a => BasesKept ρ a
  | .index t i => BasesKept ρ t ∧ BasesKept ρ i
  | .ternary c t e => BasesKept ρ c ∧ BasesKept ρ t ∧ BasesKept ρ e
  | .number _ | .int64 _ | .bool _ | .string _ | .identifier _ | .param _ | .fieldAccess _ _ | .chainAccess _ => True

def BasesKeptList (ρ : String → String) : List (Ast D) → Prop
  | [] => True
  | a :: as => BasesKept ρ a ∧ BasesKeptList ρ as

end

end Ast

namespace Importing

mutual

theorem namespaceImportedAst_eq {ns : String} {source : Table D U} : ∀ {a : Ast D},
    a.BasesKept (namespaceFunctionName ns source) → namespaceImportedAst ns source a = a.mapCalls (namespaceFunctionName ns source)
  | .fieldOf _ field, h => (congrArg (Ast.fieldOf · field) h).symm
  | .call _ _ _, h | .producerAccess _ _ _ _, h | .array _, h | .record _ _, h => by
    rw [namespaceImportedAst, Ast.mapCalls, namespaceImportedAsts_eq h]
  | .binary _ _ _, h | .index _ _, h => by
    rw [namespaceImportedAst, Ast.mapCalls, namespaceImportedAst_eq h.1, namespaceImportedAst_eq h.2]
  | .unary _ a, h => by rw [namespaceImportedAst, Ast.mapCalls, namespaceImportedAst_eq (a := a) h]
  | .ternary _ _ _, h => by
    rw [namespaceImportedAst, Ast.mapCalls, namespaceImportedAst_eq h.1, namespaceImportedAst_eq h.2.1,
      namespaceImportedAst_eq h.2.2]
  | .number _, _ | .int64 _, _ | .bool _, _ | .string _, _ | .identifier _, _ | .param _, _ | .fieldAccess _ _, _
  | .chainAccess _, _ => rfl

theorem namespaceImportedAsts_eq {ns : String} {source : Table D U} : ∀ {as : List (Ast D)},
    Ast.BasesKeptList (namespaceFunctionName ns source) as →
      namespaceImportedAsts ns source as = Ast.mapCallsList (namespaceFunctionName ns source) as
  | [], _ => rfl
  | _ :: _, h => by rw [namespaceImportedAsts, Ast.mapCallsList, namespaceImportedAst_eq h.1, namespaceImportedAsts_eq h.2]

end

/-! ### The functions that a call reaches -/

def bodies (s : Slot D U) : List (Ast D) := s.definedBody.toList ++ s.definedReturnFields.map Prod.snd

/-- The functions that an expression calls, directly or through the bodies of other functions. -/
inductive Reached (t : Table D U) (ast : Ast D) : String → Prop
  | here {n : String} (h : n ∈ ast.calls) : Reached t ast n
  | through {m n : String} {s : Slot D U} {body : Ast D} (hm : Reached t ast m) (hs : t.find m = some s) (hbody : body ∈ bodies s)
      (hn : n ∈ body.calls) : Reached t ast n

inductive Compiled [Double D] : Table D U → Prop
  | mk {b : Defaults D U} {imports : List (Import D U)} {required : List String} {functions : List (Definition D)} {t : Table D U}
      (hb : b.Regular) (himports : ∀ i ∈ imports, Compiled i.registry)
      (hok : compileRegistry b imports required functions = .ok t) : Compiled t

theorem Compiled.tidy [Double D] {t : Table D U} (h : Compiled t) : TidyTable t := by
  cases h with
  | mk hb himports hok => exact tidy_compileRegistry hb hok

/-- A default builtin in two registries. One that gets the call itself evaluates arguments in its registry. -/
inductive SameBuiltin (ρ : String → String) (N : Set String) (L : Set D) (s s' : Slot D U) : Prop
  | callback (hsame : s' = s) (h : s.entry.Callback)
  | ast {f f' : AstFunc D} (h : s.entry.AstCallback f) (h' : s'.entry.AstCallback f')
      (hsignature : s.entry.SameSignature s'.entry) (halike : f.Alike ρ N L f')

def Unsigned [Double D] : Set D := {v | Double.signbit v = false}

theorem literals_unsigned [Double D] : Eval.Literals (Unsigned : Set D) := by
  intro x hx y hy heq
  rw [Double.eq_of_signbit x y heq (hx.trans hy.symm)]

section
variable [Double D] (b : Defaults D U) (pre post : List (Import D U)) (child : Import D U) (functions : List (Definition D))
  (ast : Ast D)

abbrev rename (child : Import D U) : String → String := namespaceFunctionName child.name child.registry

/-- The call reaches functions of documents and default builtins only, as the parser makes them. -/
structure DocumentCall : Prop where
  callee : ∀ n, Reached child.registry ast n → ∃ s, child.registry.find n = some s ∧ (entryIsNamespaced s = true ∨
    entryIsNamespaced s = false ∧ ∃ s', b.entry n = some s' ∧
      SameBuiltin (rename child) {n | Reached child.registry ast n} Unsigned s s')
  numbers : ∀ v ∈ ast.numbers, v ∈ Unsigned
  bodyNumbers : ∀ n s, Reached child.registry ast n → child.registry.find n = some s →
    ∀ body ∈ bodies s, ∀ v ∈ body.numbers, v ∈ Unsigned

/-- Every name that the call reaches is the name of the same function in the parent. -/
structure NamesKept : Prop where
  bases : ∀ n s, Reached child.registry ast n → child.registry.find n = some s →
    ∀ body ∈ bodies s, body.BasesKept (rename child)
  sole : ∀ n s, Reached child.registry ast n → child.registry.find n = some s → entryIsNamespaced s = true →
    Sole pre post child functions n
  untaken : ∀ n s, Reached child.registry ast n → child.registry.find n = some s → entryIsNamespaced s = false →
    Untaken (pre ++ child :: post) functions n
  unhidden : ∀ n s, Reached child.registry ast n → child.registry.find n = some s → entryIsNamespaced s = true → s.astFunc = none

end

section
variable [Double D] {b : Defaults D U} {pre post : List (Import D U)} {child : Import D U} {functions : List (Definition D)}
  {ast : Ast D} {required : List String} {parent : Table D U}

variable {n : String} {s : Slot D U}

omit [Double D] in
theorem rename_document (hs : child.registry.find n = some s) (hns : entryIsNamespaced s = true) :
    rename child n = qualifiedName child.name n := by
  unfold rename namespaceFunctionName nameShouldNamespace qualifiedName
  rw [hs, Option.any_some, hns]
  cases hasDot n <;> rfl

omit [Double D] in
theorem rename_builtin (hs : child.registry.find n = some s) (hns : entryIsNamespaced s = false) :
    rename child n = n := by
  unfold rename namespaceFunctionName nameShouldNamespace
  rw [hs, Option.any_some, hns, Bool.and_false]
  rfl

omit [Double D] in
theorem find_programRegistry (t : Table D U) (resolver : Option (Ast D → Ast D → Context D → Except Error (Option (Value D))))
    (n : String) : (programRegistry t resolver).find n = (t.find n).map Slot.entry := by
  unfold programRegistry Registry.find Table.registry Table.find
  rw [List.find?_map]
  rfl

theorem injOn_rename (hb : b.Regular) (hcall : DocumentCall b child ast) (hkept : NamesKept pre post child functions ast) :
    Set.InjOn (rename child) {n | Reached child.registry ast n} := by
  have hdotted : ∀ {n m : String} {s s' s'' : Slot D U}, child.registry.find n = some s → entryIsNamespaced s = true →
      child.registry.find m = some s' → entryIsNamespaced s' = false → b.entry m = some s'' → rename child n ≠ rename child m := by
    intro n m s s' s'' hs hns hs' hns' hentry heq
    rw [rename_document hs hns, rename_builtin hs' hns'] at heq
    have hdot := hasDot_qualifiedName child.name n
    rw [heq, hb.plain m s'' hentry] at hdot
    cases hdot
  intro n hn m hm heq
  obtain ⟨s, hs, hns | ⟨hns, t, ht, -⟩⟩ := hcall.callee n hn
  · obtain ⟨s', hs', hns' | ⟨hns', t', ht', -⟩⟩ := hcall.callee m hm
    · rw [rename_document hs hns, rename_document hs' hns'] at heq
      by_contra hne
      have hname : s'.name = m := Table.find_name hs'
      have hfellow := (hkept.sole n s hn hs hns).fellow s' (List.mem_of_find?_eq_some hs') hns'
      rw [hname] at hfellow
      exact hfellow (Ne.symm hne) heq.symm
    · exact absurd heq (hdotted hs hns hs' hns' ht')
  · obtain ⟨s', hs', hns' | ⟨hns', t', ht', -⟩⟩ := hcall.callee m hm
    · exact absurd heq.symm (hdotted hs' hns' hs hns ht)
    · rwa [rename_builtin hs hns, rename_builtin hs' hns'] at heq

theorem copy_imported (htidy : Tidy s) (hs : child.registry.find n = some s)
    (hns : entryIsNamespaced s = true) (hn : Reached child.registry ast n) (hcall : DocumentCall b child ast)
    (hkept : NamesKept pre post child functions ast) (q : String) :
    FuncEntry.Copy (rename child) {n | Reached child.registry ast n} Unsigned s.entry
      (importedEntry child.name child.registry s { name := q }).entry := by
  have hbody : ∀ body ∈ bodies s, namespaceImportedAst child.name child.registry body = body.mapCalls (rename child) :=
    fun body hbody => namespaceImportedAst_eq (hkept.bases n s hn hs body hbody)
  have hwithin : ∀ body ∈ bodies s, body.Within {n | Reached child.registry ast n} Unsigned := fun body hbody =>
    Ast.within_of (fun m hm => .through hn hs hbody hm) (hcall.bodyNumbers n s hn hs body hbody)
  have hscalar : ∀ body, s.definedBody = some body → body ∈ bodies s := by
    intro body hdefined
    simp [bodies, hdefined]
  have hfield : ∀ p ∈ s.definedReturnFields, p.2 ∈ bodies s := by
    intro p hp
    exact List.mem_append_right _ (List.mem_map.mpr ⟨p, hp, rfl⟩)
  have hdefined : s.definedBody.isSome = true ∨ s.definedReturnFields.isEmpty = false := by
    simp only [entryIsNamespaced, Bool.and_eq_true, Bool.or_eq_true, Bool.not_eq_true'] at hns
    exact hns.2
  have hproducer : s.modelProducer = none := by
    simp only [entryIsNamespaced, Bool.and_eq_true, Option.isNone_iff_eq_none] at hns
    exact hns.1
  have hnames := htidy.document hns
  exact {
    document := {
      astFunc := by simp [Slot.entry, hkept.unhidden n s hn hs hns]
      astFuncHandler := htidy.astFuncHandler
      structProducer := by simp [Slot.entry, htidy.structProducer]
      modelProducer := hproducer
      defined := hdefined }
    document' := {
      astFunc := rfl
      astFuncHandler := rfl
      structProducer := rfl
      modelProducer := rfl
      defined := by simpa [Slot.entry, importedEntry] using hdefined }
    returnType := rfl
    argTypes := hnames.2.symm
    paramNames := by simp [FuncEntry.entryParamNames, Slot.entry, importedEntry, hnames.1, Slot.clearOwnedEntry]
    definedParamNames := rfl
    definedParamFields := rfl
    definedBody := by
      cases hb : s.definedBody with
      | none => simp [Slot.entry, importedEntry, hb]
      | some body => simp [Slot.entry, importedEntry, hb, hbody body (hscalar body hb)]
    definedReturnFields := List.map_congr_left fun p hp => by rw [hbody p.2 (hfield p hp)]
    body := fun body hb => hwithin body (hscalar body hb)
    fields := fun p hp => hwithin p.2 (hfield p hp) }

theorem renames_programRegistry (hb : b.Regular) (hchild : Compiled child.registry)
    (hok : compileRegistry b (pre ++ child :: post) required functions = .ok parent) (hcall : DocumentCall b child ast)
    (hkept : NamesKept pre post child functions ast)
    {resolver resolver' : Option (Ast D → Ast D → Context D → Except Error (Option (Value D)))}
    (hresolver : ResolversAlike (rename child) {n | Reached child.registry ast n} Unsigned resolver resolver') :
    Registry.Renames (rename child) {n | Reached child.registry ast n} Unsigned (programRegistry child.registry resolver)
      (programRegistry parent resolver') := by
  have hproducer : ∀ {t : Table D U}, TidyTable t → ∀ r n e, (programRegistry t r).find n = some e → e.structProducer = none := by
    intro t ht r n e he
    rw [find_programRegistry] at he
    obtain ⟨s, hs, rfl⟩ := Option.map_eq_some_iff.mp he
    simp [Slot.entry, (ht.tidy s (List.mem_of_find?_eq_some hs)).structProducer]
  refine {
    injOn := injOn_rename hb hcall hkept
    literals := literals_unsigned
    entry := fun n hn => ?_
    producer := hproducer hchild.tidy resolver
    producer' := hproducer (tidy_compileRegistry hb hok) resolver'
    capability := fun _ => rfl
    capability' := fun _ => rfl
    resolver := hresolver }
  obtain ⟨s, hs, hns | ⟨hns, s', hs', hsame⟩⟩ := hcall.callee n hn
  · have hfind := find_imported hb hchild.tidy hok hs hns (hkept.sole n s hn hs hns)
    have hcopy := copy_imported (hchild.tidy.tidy s (List.mem_of_find?_eq_some hs)) hs hns hn hcall hkept
      (qualifiedName child.name n)
    refine ⟨s.entry, _, ?_, ?_, .copy hcopy⟩
    · rw [find_programRegistry, hs, Option.map_some]
    · rw [find_programRegistry, rename_document hs hns, hfind, Option.map_some]
  · have hname := rename_builtin hs hns
    have hfind := find_builtin hb hchild.tidy hok hs hns hs' (hkept.untaken n s hn hs hns)
    refine ⟨s.entry, s'.entry, ?_, ?_, ?_⟩
    · rw [find_programRegistry, hs, Option.map_some]
    · rw [find_programRegistry, hname, hfind, Option.map_some]
    · cases hsame with
      | callback heq hcallback => exact .callback hname (by rw [heq]) hcallback
      | ast h h' hsignature halike =>
        exact .astCallback hname h h' hsignature.returnType hsignature.argTypes hsignature.paramNames halike

end

/-! ### A child and its parent -/

def noDefaults : Defaults Int Unit := { entry := fun _ => none, batch := fun _ => [] }

theorem noDefaults_regular : noDefaults.Regular where
  name _ _ h := by cases h
  plain _ _ h := by cases h
  batch _ _ h := by cases h
  host _ _ h := by cases h
  producer _ _ h := by cases h
  handler _ _ h := by cases h

def importOf (name : String) (t : Table Int Unit) : Import Int Unit where
  name := name
  outputs := ["out"]
  params := []
  producer := fun _ _ => .ok .null
  registry := t

def doubled : Slot Int Unit where
  name := "doubled"
  minArgs := 1
  maxArgs := 1
  definedBody := some (.binary .plus (.identifier "x") (.identifier "x"))
  definedParamNames := ["x"]
  definedParamFields := [[]]

def quadrupled : Slot Int Unit where
  name := "quadrupled"
  minArgs := 1
  maxArgs := 1
  definedBody := some (.call "doubled" [.call "doubled" [.identifier "x"] []] [])
  definedParamNames := ["x"]
  definedParamFields := [[]]

def scaling : Table Int Unit := [doubled, quadrupled]

theorem compiled_scaling : compileRegistry noDefaults [] [] [.fn "doubled" ["x"] (.binary .plus (.identifier "x") (.identifier "x")),
    .fn "quadrupled" ["x"] (.call "doubled" [.call "doubled" [.identifier "x"] []] [])] = .ok scaling := rfl

theorem reached_scaling {n : String} (h : Reached scaling (.call "quadrupled" [.number 3] []) n) :
    n = "quadrupled" ∨ n = "doubled" := by
  induction h with
  | here h => exact .inl (by simpa [Ast.calls, Ast.callsList] using h)
  | through hm hs hbody hn ih =>
    rcases ih with rfl | rfl
    · cases hs
      simp only [bodies, quadrupled, Option.toList_some, List.map_nil, List.append_nil, List.mem_singleton] at hbody
      subst hbody
      exact .inr (by simpa [Ast.calls, Ast.callsList] using hn)
    · cases hs
      simp only [bodies, doubled, Option.toList_some, List.map_nil, List.append_nil, List.mem_singleton] at hbody
      subst hbody
      simp [Ast.calls] at hn

theorem find_scaling {n : String} {s : Slot Int Unit} (hn : n = "quadrupled" ∨ n = "doubled") (hs : scaling.find n = some s) :
    (s = quadrupled ∧ n = "quadrupled") ∨ (s = doubled ∧ n = "doubled") := by
  rcases hn with rfl | rfl
  · cases hs
    exact .inl ⟨rfl, rfl⟩
  · cases hs
    exact .inr ⟨rfl, rfl⟩

theorem documentCall_scaling : DocumentCall noDefaults (importOf "m" scaling) (.call "quadrupled" [.number 3] []) where
  callee n hn := by
    rcases reached_scaling hn with rfl | rfl
    · exact ⟨quadrupled, rfl, .inl rfl⟩
    · exact ⟨doubled, rfl, .inl rfl⟩
  numbers v hv := by
    obtain rfl : v = 3 := by simpa [Ast.numbers, Ast.numbersList] using hv
    rfl
  bodyNumbers n s hn hs body hbody v hv := by
    rcases find_scaling (reached_scaling hn) hs with ⟨rfl, -⟩ | ⟨rfl, -⟩
    all_goals
      obtain rfl := List.mem_singleton.mp hbody
      cases hv

theorem namesKept_scaling : NamesKept [] [] (importOf "m" scaling) [] (.call "quadrupled" [.number 3] []) where
  bases n s hn hs body hbody := by
    rcases find_scaling (reached_scaling hn) hs with ⟨rfl, -⟩ | ⟨rfl, -⟩
    all_goals
      obtain rfl := List.mem_singleton.mp hbody
      simp [Ast.BasesKept, Ast.BasesKeptList]
  sole n s hn hs _ := by
    rcases reached_scaling hn with rfl | rfl
    all_goals exact ⟨by decide, by simp, by decide, by simp⟩
  untaken n s hn hs hns := by
    rcases find_scaling (reached_scaling hn) hs with ⟨rfl, -⟩ | ⟨rfl, -⟩
    all_goals cases hns
  unhidden n s hn hs _ := by
    rcases find_scaling (reached_scaling hn) hs with ⟨rfl, -⟩ | ⟨rfl, -⟩
    all_goals rfl

/-- A model that defines `f() = util.g()` and imports a module `util` with `g() = value`. -/
def importsUtil (value : Int) : Except Error (Table Int Unit) := do
  let util ← compileRegistry noDefaults [] [] [.fn "g" [] (.number value)]
  compileRegistry noDefaults [importOf "util" util] [] [.fn "f" [] (.call "util.g" [] [])]

def importsBoth : Except Error (Table Int Unit) := do
  let first ← importsUtil 1
  let second ← importsUtil 2
  compileRegistry noDefaults [importOf "a" first, importOf "b" second] [] []

def callIn (t : Except Error (Table Int Unit)) (name : String) : Option (Value Int) := do
  let t ← t.toOption
  (Eval.evalAst (programRegistry t none) 8 (.call name [] []) [{}]).toOption.map Prod.fst

end Importing
end Cxpr
