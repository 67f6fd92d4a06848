import Cxpr.Eval.RenamedCalls

/-! Renamed expressions: a registry with the functions of another under new names evaluates a renamed expression as the other
    one evaluates the expression itself. -/

namespace Cxpr
open Stateful
variable {D : Type}

namespace Eval
variable {ρ : String → String} {N : Set String} {L : Set D}

section
variable [Double D] {reg reg' : Registry D} {deeper deeper' : Ast D → EvalM D (Value D)}

omit [Double D] in
theorem handler_renamed {name : String} {entry entry' : FuncEntry D} (h : FuncEntry.Renames ρ N L name entry entry') :
    entry.astFuncHandler = none ∧ entry'.astFuncHandler = none := by
  cases h with
  | copy h => exact ⟨h.document.astFuncHandler, h.document'.astFuncHandler⟩
  | callback hname hsame h => exact ⟨h.astFuncHandler, hsame ▸ h.astFuncHandler⟩
  | astCallback hname h h' _ _ _ _ => exact ⟨h.astFuncHandler, h'.astFuncHandler⟩

omit [Double D] in
theorem producesField_renamed {name : String} {entry entry' : FuncEntry D} (h : FuncEntry.Renames ρ N L name entry entry') :
    (entry'.structProducer.isSome || entry'.modelProducer.isSome || !entry'.definedReturnFields.isEmpty) =
      (entry.structProducer.isSome || entry.modelProducer.isSome || !entry.definedReturnFields.isEmpty) := by
  cases h with
  | copy h =>
    rw [h.document.structProducer, h.document.modelProducer, h.document'.structProducer, h.document'.modelProducer,
      h.definedReturnFields, List.isEmpty_map]
  | callback hname hsame h => rw [hsame]
  | astCallback hname h h' _ _ _ _ =>
    rw [h.structProducer, h.modelProducer, h.definedReturnFields, h'.structProducer, h'.modelProducer, h'.definedReturnFields]

omit [Double D] in
theorem fieldOfValue_renamed (field : String) {base base' : EvalM D (Value D)} (h : Parallel (Renamed ρ N L) base base') :
    Parallel (Renamed ρ N L) (evalNode.fieldOfValue field base) (evalNode.fieldOfValue field base') := by
  refine h.andThen fun v => ?_
  cases v with
  | struct s => exact .lift rfl fun _ _ => trivial
  | _ => exact .throw _ _

mutual

theorem evalNode_renamed (hreg : Registry.Renames ρ N L reg reg')
    (hdeeper : ∀ a, a.Within N L → Parallel (Renamed ρ N L) (deeper a) (deeper' (a.mapCalls ρ))) :
    ∀ ast : Ast D, ast.Within N L → Parallel (Renamed ρ N L) (evalNode reg deeper ast) (evalNode reg' deeper' (ast.mapCalls ρ))
  | .number _, _ | .int64 _, _ | .bool _, _ | .string _, _ => by
    rw [Ast.mapCalls, evalNode, evalNode]
    exact .pure trivial
  | .identifier name, _ => by
    rw [Ast.mapCalls, evalNode, evalNode]
    refine Parallel.read fun c c' hc => ?_
    rw [hc.getTyped]
    cases c.getTyped name with
    | some v => exact .pure trivial
    | none => exact .throw _ _
  | .param name, _ => by
    rw [Ast.mapCalls, evalNode, evalNode]
    refine Parallel.read fun c c' hc => ?_
    rw [hc.getParamTyped]
    cases c.getParamTyped name with
    | some v => exact .pure trivial
    | none => exact .throw _ _
  | .fieldAccess object field, _ => by
    rw [Ast.mapCalls, evalNode, evalNode]
    exact evalFieldAccess_renamed hreg object field
  | .chainAccess path, _ => by
    rw [Ast.mapCalls, evalNode, evalNode]
    refine Parallel.read fun c c' hc => ?_
    rw [hc.evalChainAccess]
    exact .lift rfl fun _ _ => trivial
  | .array es, h => by
    rw [Ast.mapCalls, evalNode, evalNode, evalActs_eq_map, evalActs_eq_map, Ast.mapCallsList_eq_map, List.map_map]
    exact (evalAll_renamed (evalNodes_renamed hreg hdeeper es h)).andThen fun values => .pure trivial
  | .record names values, h => by
    rw [Ast.mapCalls, evalNode, evalNode, evalActs_eq_map, evalActs_eq_map, Ast.mapCallsList_eq_map, List.map_map]
    have hfields := evalRecordFields_renamed names (evalNodes_renamed hreg hdeeper values h)
    exact (inOverlay_renamed rfl hfields).andThen fun fields => .pure trivial
  | .unary op a, h => by
    rw [Ast.mapCalls, evalNode, evalNode]
    exact (evalNode_renamed hreg hdeeper a h).andThen fun v => .lift rfl fun _ _ => trivial
  | .binary op l r, h => by
    rw [Ast.mapCalls, evalNode, evalNode]
    exact evalBinary_renamed (evalNode_renamed hreg hdeeper l h.1) (evalNode_renamed hreg hdeeper r h.2)
  | .ternary c t e, h => by
    rw [Ast.mapCalls, evalNode, evalNode]
    exact evalTernary_renamed (evalNode_renamed hreg hdeeper c h.1) (evalNode_renamed hreg hdeeper t h.2.1)
      (evalNode_renamed hreg hdeeper e h.2.2)
  | .index t i, h => by
    rw [Ast.mapCalls, evalNode, evalNode]
    exact evalIndex_renamed hreg h.1 h.2 (evalNode_renamed hreg hdeeper t h.1) (evalNode_renamed hreg hdeeper i h.2)
  | .call name args argNames, h => by
    rw [Ast.mapCalls, evalNode, evalNode]
    exact memoized_renamed hreg h.1 h
      (evalCall_renamed hreg hdeeper (evalNodes_renamed hreg hdeeper args h.2) (Ast.withinList_iff.mp h.2) h.1 argNames)
  | .producerAccess name args argNames field, h => by
    obtain ⟨entry, entry', hfind, hfind', hentry⟩ := hreg.entry name h.1
    have hhandler := handler_renamed hentry
    rw [Ast.mapCalls, evalNode, evalNode, hfind, hfind', Option.bind_some, Option.bind_some, hhandler.1, hhandler.2]
    exact evalProducerAccess_renamed hreg hdeeper (evalNodes_renamed hreg hdeeper args h.2) h.1 argNames field
  | .fieldOf base field, h => by
    have hbase := evalNode_renamed hreg hdeeper base h
    cases base with
    | call name args argNames =>
      have hnodes := evalNodes_renamed hreg hdeeper args h.2
      obtain ⟨entry, entry', hfind, hfind', hentry⟩ := hreg.entry name h.1
      rw [evalNode] at hbase
      rw [Ast.mapCalls, Ast.mapCalls, evalNode, evalNode, hfind, hfind']
      simp only [producesField_renamed hentry]
      split
      · exact evalProducerAccess_renamed hreg hdeeper hnodes h.1 argNames field
      · exact fieldOfValue_renamed field hbase
    | _ => exact fieldOfValue_renamed field hbase

theorem evalNodes_renamed (hreg : Registry.Renames ρ N L reg reg')
    (hdeeper : ∀ a, a.Within N L → Parallel (Renamed ρ N L) (deeper a) (deeper' (a.mapCalls ρ))) :
    ∀ as : List (Ast D), Ast.WithinList N L as → ∀ a ∈ as,
      Parallel (Renamed ρ N L) (evalNode reg deeper a) (evalNode reg' deeper' (a.mapCalls ρ))
  | [], _ => fun _ h => by cases h
  | a :: as, h =>
    List.forall_mem_cons.mpr ⟨evalNode_renamed hreg hdeeper a h.1, evalNodes_renamed hreg hdeeper as h.2⟩

end

end

section
variable [Double D] {reg reg' : Registry D} (hreg : Registry.Renames ρ N L reg reg')
include hreg

theorem evalDepth_renamed (depth : Nat) : ∀ ast : Ast D, ast.Within N L →
    Parallel (Renamed ρ N L) (evalDepth reg depth ast) (evalDepth reg' depth (ast.mapCalls ρ)) := by
  induction depth with
  | zero => exact fun ast _ c c' _ => .error _ _
  | succ depth ih => exact fun ast hast => evalNode_renamed hreg ih ast hast

omit hreg [Double D] in
theorem renamed_memoEnter {c : Context D} (hidle : ∀ f ∈ c.head?, f.evalMemoDepth = 0) :
    Renamed ρ N L (memoEnter c) (memoEnter c) := by
  cases c with
  | nil => exact .nil
  | cons f parent =>
    have hzero : f.evalMemoDepth = 0 := hidle f rfl
    have hentered : memoEnter (f :: parent) = { f with evalMemo := [], evalMemoDepth := f.evalMemoDepth + 1 } :: parent := by
      simp only [memoEnter, Context.update, hzero, if_true]
    rw [hentered]
    exact Renamed.cons (fun entry hentry => absurd hentry List.not_mem_nil) rfl

theorem evalAstValue_renamed {ast : Ast D} (hast : ast.Within N L) {c : Context D}
    (hidle : ∀ f ∈ c.head?, f.evalMemoDepth = 0) (depth : Nat) :
    (evalAstValue reg depth ast c).toOption.map Prod.fst =
      (evalAstValue reg' depth (ast.mapCalls ρ) c).toOption.map Prod.fst := by
  have hdepth := evalDepth_renamed hreg depth ast hast _ _ (renamed_memoEnter hidle)
  show ((evalDepth reg depth ast (memoEnter c)) >>= fun p => .ok (p.1, memoLeave p.2)).toOption.map Prod.fst =
    ((evalDepth reg' depth (ast.mapCalls ρ) (memoEnter c)) >>= fun p => .ok (p.1, memoLeave p.2)).toOption.map Prod.fst
  generalize evalDepth reg depth ast (memoEnter c) = x at hdepth ⊢
  generalize evalDepth reg' depth (ast.mapCalls ρ) (memoEnter c) = y at hdepth ⊢
  cases hdepth with
  | ok hR hQ => rfl
  | error e e' => rfl

end

end Eval

/-! ### The typechecker -/

structure FuncEntry.SameSignature (entry entry' : FuncEntry D) : Prop where
  returnType : entry'.returnType = entry.returnType
  argTypes : entry'.argTypes = entry.argTypes
  paramNames : entry'.entryParamNames = entry.entryParamNames

theorem FuncEntry.Renames.sameSignature {ρ : String → String} {N : Set String} {L : Set D} {name : String}
    {entry entry' : FuncEntry D} (h : FuncEntry.Renames ρ N L name entry entry') : entry.SameSignature entry' := by
  cases h with
  | copy h => exact ⟨h.returnType, h.argTypes, h.paramNames⟩
  | callback hname hsame h =>
    subst hsame
    exact ⟨rfl, rfl, rfl⟩
  | astCallback hname h h' hreturn htypes hparams _ => exact ⟨hreturn, htypes, hparams⟩

namespace Typecheck
variable [Double D] {reg reg' : Registry D} {ρ : String → String} {N : Set String} {L : Set D}

def knownNames : List String := ["if", "any", "all"]

variable {entry entry' : FuncEntry D} {name : String}

theorem checkArg_signature (h : entry.SameSignature entry') (name : String)
    (argNames : List (Option String)) (i : Nat) (arg : Ast D) (type : StaticType) :
    checkArg (some entry') name argNames i arg type = checkArg (some entry) name argNames i arg type := by
  unfold checkArg
  simp only [h.argTypes, h.paramNames]

theorem checkArg_name {entry : Option (FuncEntry D)} {name' : String} (h : name ∉ knownNames) (h' : name' ∉ knownNames)
    (argNames : List (Option String)) (i : Nat) (arg : Ast D) (type : StaticType) :
    (checkArg entry name' argNames i arg type).toOption = (checkArg entry name argNames i arg type).toOption := by
  have hknown : ∀ {n : String}, n ∉ knownNames → (n == "any" || n == "all") = false := by
    intro n hn
    simp only [knownNames, List.mem_cons, List.not_mem_nil, or_false, not_or] at hn
    simp [hn.2.1, hn.2.2]
  unfold checkArg
  simp only [hknown h, hknown h', Bool.false_and, Bool.false_eq_true, if_false]
  cases entry with
  | none => rfl
  | some entry =>
    dsimp only
    split
    · rfl
    · split <;> rfl

theorem forM_toOption {α : Type} {f g : α → Except Error Unit} (l : List α) (h : ∀ a, (f a).toOption = (g a).toOption) :
    (l.forM f).toOption = (l.forM g).toOption := by
  induction l with
  | nil => rfl
  | cons a l ih =>
    have hhead := h a
    show (f a >>= fun _ => l.forM f).toOption = (g a >>= fun _ => l.forM g).toOption
    cases hf : f a <;> cases hg : g a <;> rw [hf, hg] at hhead
    · rfl
    · cases hhead
    · cases hhead
    · exact ih

theorem toOption_andThen {α β : Type} {x y : Except Error α} (h : x.toOption = y.toOption) (k : Except Error β) :
    (x >>= fun _ => k).toOption = (y >>= fun _ => k).toOption := by
  cases x <;> cases y
  · rfl
  · cases h
  · cases h
  · rfl

theorem inferCall_signature (hfind : reg.find name = some entry)
    (hfind' : reg'.find name = some entry') (h : entry.SameSignature entry') (args : List (Ast D))
    (argNames : List (Option String)) (types : List (Except Error StaticType)) :
    inferCall reg' name args argNames types = inferCall reg name args argNames types := by
  unfold inferCall
  simp only [hfind, hfind', checkArg_signature h, Option.bind_some, h.returnType]

theorem inferCall_renamed {name' : String} (hfind : reg.find name = some entry)
    (hfind' : reg'.find name' = some entry') (h : entry.SameSignature entry') (hname : name ∉ knownNames)
    (hname' : name' ∉ knownNames) (args : List (Ast D)) (argNames : List (Option String))
    (types : List (Except Error StaticType)) :
    (inferCall reg' name' args argNames types).toOption = (inferCall reg name args argNames types).toOption := by
  have hif : ∀ {n : String}, n ∉ knownNames → (n == "if") = false := by
    intro n hn
    simp only [knownNames, List.mem_cons, not_or] at hn
    simp [hn.1]
  unfold inferCall
  simp only [hif hname, hif hname', hfind, hfind', checkArg_signature h, Option.bind_some, h.returnType]
  refine toOption_andThen (forM_toOption _ fun p => ?_) _
  obtain ⟨⟨arg, type⟩, i⟩ := p
  cases type with
  | error e => rfl
  | ok type =>
    have hcheck : (checkArg (some entry) name' argNames i arg type).toOption =
        (checkArg (some entry) name argNames i arg type).toOption := checkArg_name hname hname' argNames i arg type
    exact hcheck

mutual

theorem infer_kept (hreg : Registry.Renames ρ N L reg reg') :
    ∀ ast : Ast D, ast.Within {n ∈ N | ρ n = n} L → infer reg' ast = infer reg ast
  | .number _, _ | .int64 _, _ | .bool _, _ | .string _, _ | .identifier _, _ | .param _, _ | .fieldAccess _ _, _
  | .chainAccess _, _ | .producerAccess _ _ _ _, _ => by unfold infer; rfl
  | .array es, h => by rw [infer, infer, inferList_kept hreg es h]
  | .record names values, h => by rw [infer, infer, inferList_kept hreg values h]
  | .fieldOf base field, h => by rw [infer, infer, infer_kept hreg base h]
  | .binary op l r, h => by rw [infer, infer, infer_kept hreg l h.1, infer_kept hreg r h.2]
  | .unary op a, h => by rw [infer, infer, infer_kept hreg a h]
  | .call name args argNames, h => by
    obtain ⟨entry, entry', hfind, hfind', hentry⟩ := hreg.entry name h.1.1
    rw [h.1.2] at hfind'
    rw [infer, infer, inferList_kept hreg args h.2, inferCall_signature hfind hfind' hentry.sameSignature]
  | .index target i, h => by
    rw [infer, infer, infer_kept hreg target h.1, infer_kept hreg i h.2]
    unfold inferIndex
    rw [hreg.capability, hreg.capability']
  | .ternary c t e, h => by
    rw [infer, infer, infer_kept hreg c h.1, infer_kept hreg t h.2.1, infer_kept hreg e h.2.2]

theorem inferList_kept (hreg : Registry.Renames ρ N L reg reg') :
    ∀ as : List (Ast D), Ast.WithinList {n ∈ N | ρ n = n} L as → inferList reg' as = inferList reg as
  | [], _ => rfl
  | a :: as, h => by rw [inferList, inferList, infer_kept hreg a h.1, inferList_kept hreg as h.2]

end

end Typecheck

namespace Ast
variable {ρ : String → String} {N : Set String} {L : Set D}

mutual

theorem Within.mono {M : Set String} (hMN : M ⊆ N) : ∀ {a : Ast D}, a.Within M L → a.Within N L
  | .call _ _ _, h | .producerAccess _ _ _ _, h => ⟨hMN h.1, WithinList.mono hMN h.2⟩
  | .array _, h | .record _ _, h => WithinList.mono hMN h
  | .fieldOf base _, h => Within.mono hMN (a := base) h
  | .binary _ _ _, h | .index _ _, h => ⟨Within.mono hMN h.1, Within.mono hMN h.2⟩
  | .unary _ a, h => Within.mono hMN (a := a) h
  | .ternary _ _ _, h => ⟨Within.mono hMN h.1, Within.mono hMN h.2.1, Within.mono hMN h.2.2⟩
  | .number _, h | .int64 _, h | .bool _, h | .string _, h | .identifier _, h | .param _, h | .fieldAccess _ _, h
  | .chainAccess _, h => h

theorem WithinList.mono {M : Set String} (hMN : M ⊆ N) : ∀ {as : List (Ast D)}, WithinList M L as → WithinList N L as
  | [], _ => trivial
  | _ :: _, h => ⟨Within.mono hMN h.1, WithinList.mono hMN h.2⟩

end

mutual

theorem mapCalls_of_kept : ∀ {a : Ast D}, a.Within {n ∈ N | ρ n = n} L → a.mapCalls ρ = a
  | .call _ _ _, h | .producerAccess _ _ _ _, h => by rw [mapCalls, mapCallsList_of_kept h.2, h.1.2]
  | .array _, h | .record _ _, h => by rw [mapCalls, mapCallsList_of_kept h]
  | .fieldOf base _, h => by rw [mapCalls, mapCalls_of_kept (a := base) h]
  | .binary _ _ _, h | .index _ _, h => by rw [mapCalls, mapCalls_of_kept h.1, mapCalls_of_kept h.2]
  | .unary _ a, h => by rw [mapCalls, mapCalls_of_kept (a := a) h]
  | .ternary _ _ _, h => by rw [mapCalls, mapCalls_of_kept h.1, mapCalls_of_kept h.2.1, mapCalls_of_kept h.2.2]
  | .number _, _ | .int64 _, _ | .bool _, _ | .string _, _ | .identifier _, _ | .param _, _ | .fieldAccess _ _, _
  | .chainAccess _, _ => rfl

theorem mapCallsList_of_kept : ∀ {as : List (Ast D)}, WithinList {n ∈ N | ρ n = n} L as → mapCallsList ρ as = as
  | [], _ => rfl
  | _ :: _, h => by rw [mapCallsList, mapCalls_of_kept h.1, mapCallsList_of_kept h.2]

end

end Ast

namespace Eval
variable [Double D] {reg reg' : Registry D} {ρ : String → String} {N : Set String} {L : Set D}

theorem evalAst_renamed (hreg : Registry.Renames ρ N L reg reg') {name : String} (hname : name ∈ N)
    (hknown : name ∉ Typecheck.knownNames) (hknown' : ρ name ∉ Typecheck.knownNames) {args : List (Ast D)}
    (hargs : ∀ a ∈ args, a.Within {n ∈ N | ρ n = n} L) (argNames : List (Option String)) {c : Context D}
    (hidle : ∀ f ∈ c.head?, f.evalMemoDepth = 0) (depth : Nat) :
    (evalAst reg depth (.call name args argNames) c).toOption.map Prod.fst =
      (evalAst reg' depth (.call (ρ name) args argNames) c).toOption.map Prod.fst := by
  have hlist := Ast.withinList_iff.mpr hargs
  obtain ⟨entry, entry', hfind, hfind', hentry⟩ := hreg.entry name hname
  have htype : (typecheck (.call (ρ name) args argNames) reg').toOption = (typecheck (.call name args argNames) reg).toOption := by
    unfold typecheck
    rw [Typecheck.infer, Typecheck.infer, Typecheck.inferList_kept hreg args hlist]
    exact Typecheck.inferCall_renamed hfind hfind' hentry.sameSignature hknown hknown' args argNames _
  have hcall : (Ast.call name args argNames).Within N L := ⟨hname, hlist.mono fun n hn => hn.1⟩
  have hvalue := evalAstValue_renamed hreg hcall hidle depth
  rw [Ast.mapCalls, Ast.mapCallsList_of_kept hlist] at hvalue
  unfold evalAst
  cases hleft : typecheck (.call name args argNames) reg with
  | error e =>
    cases hright : typecheck (.call (ρ name) args argNames) reg' with
    | error e' => rfl
    | ok t =>
      rw [hleft, hright] at htype
      cases htype
  | ok t =>
    cases hright : typecheck (.call (ρ name) args argNames) reg' with
    | error e =>
      rw [hleft, hright] at htype
      cases htype
    | ok t' => exact hvalue

end Eval
end Cxpr
