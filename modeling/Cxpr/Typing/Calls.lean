import Cxpr.Typing.Memo

/-! Calls under the soundness of certain types: a call keeps the memo fitting, and its result has the type that its
    function declares. -/

namespace Cxpr.Typecheck
open Eval Stateful
variable {D : Type} [Double D] {reg : Registry D}

/-! ### Overlays

The frame of a call starts with an empty memo. -/

omit [Double D] in
theorem setValue_evalMemo (f : Frame D) (name : String) (v : Value D) : (f.setValue name v).evalMemo = f.evalMemo := by
  cases v <;> rfl

omit [Double D] in
theorem bindArg_evalMemo (f : Frame D) (name : String) (v : Value D) : (bindArg f name v).evalMemo = f.evalMemo := by
  unfold bindArg
  split
  · rfl
  · exact setValue_evalMemo f name v

omit [Double D] in
theorem foldl_evalMemo {β : Type} (write : Frame D → β → Frame D) (hwrite : ∀ f b, (write f b).evalMemo = f.evalMemo)
    (l : List β) (f : Frame D) : (l.foldl write f).evalMemo = f.evalMemo := by
  induction l generalizing f with
  | nil => rfl
  | cons b l ih => rw [List.foldl_cons, ih, hwrite]

omit [Double D] in
theorem bindArgs_evalMemo (names : List String) (values : List (Value D)) : (bindArgs names values).evalMemo = [] :=
  foldl_evalMemo _ (fun f _ => bindArg_evalMemo f _ _) _ _

omit [Double D] in
theorem copyPrefixedScalars_evalMemo (dst : Frame D) (srcName dstName : String) (ctx : Context D) :
    (copyPrefixedScalars dst srcName dstName ctx).1.evalMemo = dst.evalMemo := by
  induction ctx generalizing dst with
  | nil => rfl
  | cons f parent ih =>
    unfold copyPrefixedScalars
    dsimp only
    rw [ih]
    exact foldl_evalMemo (fun (d : Frame D) (p : String × D) => d.set p.1 p.2) (fun _ _ => rfl) _ _

variable {pname : String}

omit [Double D] in
theorem bindFields_evalMemo {value : String → Except Error D} {fields : List String} {tmp f : Frame D}
    (h : bindFields pname value fields tmp = .ok f) : f.evalMemo = tmp.evalMemo := by
  induction fields generalizing tmp with
  | nil =>
    cases h
    rfl
  | cons field fields ih =>
    unfold bindFields at h
    obtain ⟨d, -, h⟩ := bind_eq_ok.mp h
    exact (ih h).trans rfl

abbrev YieldsFrame (reg : Registry D) (tmp : Frame D) (act : EvalM D (Frame D)) : Prop :=
  Yields (MemoFits reg) act fun f => f.evalMemo = tmp.evalMemo

theorem yields_bindStructArg {fields : List String} {arg : Ast D} {act : EvalM D (Value D)}
    (tmp : Frame D) (h : Keeps reg act) : YieldsFrame reg tmp (bindStructArg pname fields arg act tmp) := by
  unfold bindStructArg
  split
  · exact h.andThen fun v => Yields.pure (bindArg_evalMemo _ _ _)
  · have hfields : ∀ name struct, YieldsFrame reg tmp (do
        let ctx ← get
        bindFields pname (structArgField ctx name struct) fields tmp) := fun name struct =>
      Yields.read fun ctx _ => Yields.lift fun f hf => bindFields_evalMemo hf
    dsimp only
    split
    · exact hfields _ _
    · refine h.andThen fun v => ?_
      split
      · exact hfields _ _
      · exact Yields.andThen (yields_evalError _ _) fun found => hfields found.1 found.2

theorem yields_bindStructArgs {params : List (String × List String × Ast D × EvalM D (Value D))} (tmp : Frame D)
    (h : ∀ p ∈ params, Keeps reg p.2.2.2) : YieldsFrame reg tmp (bindStructArgs params tmp) := by
  induction params generalizing tmp with
  | nil => exact Yields.pure rfl
  | cons p params ih =>
    obtain ⟨pname, fields, arg, act⟩ := p
    refine (yields_bindStructArg tmp (h _ List.mem_cons_self)).bind fun f hf => ?_
    exact (ih f fun q hq => h q (List.mem_cons_of_mem _ hq)).mono fun g hg => hg.trans hf

theorem yields_bindOverlayArg {arg : Ast D} {act : EvalM D (Value D)} (tmp : Frame D)
    (h : Keeps reg act) : YieldsFrame reg tmp (bindOverlayArg pname arg act tmp) := by
  unfold bindOverlayArg
  split
  · rename_i name
    refine Yields.read fun ctx _ => ?_
    split
    · exact Yields.pure rfl
    · exact Yields.pure rfl
    · split
      · rename_i copied hcopied
        refine Yields.pure ?_
        have hmemo := copyPrefixedScalars_evalMemo tmp name pname ctx
        rwa [hcopied] at hmemo
      · exact h.andThen fun v => Yields.pure (bindArg_evalMemo _ _ _)
  · exact h.andThen fun v => Yields.pure (bindArg_evalMemo _ _ _)

theorem yields_bindOverlayArgs {params : List (String × Ast D × EvalM D (Value D))} (tmp : Frame D)
    (h : ∀ p ∈ params, Keeps reg p.2.2) : YieldsFrame reg tmp (bindOverlayArgs params tmp) := by
  induction params generalizing tmp with
  | nil => exact Yields.pure rfl
  | cons p params ih =>
    obtain ⟨pname, arg, act⟩ := p
    refine (yields_bindOverlayArg tmp (h _ List.mem_cons_self)).bind fun f hf => ?_
    exact (ih f fun q hq => h q (List.mem_cons_of_mem _ hq)).mono fun g hg => hg.trans hf

section
variable {deeper : Ast D → EvalM D (Value D)} (hdeeper : ∀ ast, Keeps reg (deeper ast))
include hdeeper

theorem keeps_evalReturnFields (fields : List (String × Ast D)) : Keeps reg (evalReturnFields deeper fields) := by
  induction fields with
  | nil => exact Yields.pure trivial
  | cons field fields ih =>
    obtain ⟨name, body⟩ := field
    exact (hdeeper body).andThen fun v => ih.andThen fun vs => Yields.pure trivial

variable {entry : FuncEntry D} {name : String} {args : List (Ast D)}

theorem yields_evalDefinedFunction {ordered : List (Ast D × EvalM D (Value D))}
    (h : KeepsAll reg (ordered.map (·.2))) :
    Yields (MemoFits reg) (evalDefinedFunction deeper entry ordered) fun v =>
      entry.definedBody = none → v.type = .struct := by
  have hacts : ∀ p ∈ ordered, Keeps reg p.2 := fun p hp => h _ (List.mem_map_of_mem hp)
  have hrecord : ∀ fields : List (String × Ast D), Keeps reg (do
      let values ← evalAll (ordered.map (·.2))
      inOverlay (bindArgs entry.definedParamNames values) (evalReturnFields deeper fields)) := fun fields =>
    (keeps_evalAll h).andThen fun values =>
      yields_inOverlay (bindArgs_evalMemo _ _) (keeps_evalReturnFields hdeeper fields)
  have hbody : ∀ body : Ast D, Keeps reg (wrapDefinedError entry.name (deeper body)) := fun body =>
    yields_wrapDefinedError (hdeeper body)
  unfold evalDefinedFunction
  dsimp only
  split
  · exact yields_evalError _ _
  · split
    · exact yields_evalError _ _
    · refine (keeps_evalAll h).andThen fun values => ?_
      refine Yields.andThen (yields_inOverlay (bindArgs_evalMemo _ _) (keeps_evalReturnFields hdeeper _)) fun fields => ?_
      exact Yields.pure fun _ => rfl
    · rename_i body _ hsome
      -- with a body nothing is said about the type
      have hany : ∀ {act : EvalM D (Value D)}, Keeps reg act →
          Yields (MemoFits reg) act fun v => entry.definedBody = none → v.type = .struct :=
        fun h => h.mono fun v _ hnone => by rw [hsome] at hnone; cases hnone
      refine hany ?_
      split
      · exact hbody _
      · split
        · refine (keeps_evalAll h).andThen fun values => ?_
          exact Yields.andThen (yields_inOverlay (bindArgs_evalMemo _ _) (keeps_evalReturnFields hdeeper _))
            fun fields => Yields.pure trivial
        · split
          · refine Yields.read fun ctx _ => ?_
            split
            · split
              · exact Yields.pure trivial
              · refine (yields_bindOverlayArgs {} fun p hp => hacts _ (List.of_mem_zip hp).2).bind fun tmp htmp => ?_
                exact yields_inOverlay htmp (hbody _)
            · exact (keeps_evalAll h).andThen fun values => yields_inOverlay (bindArgs_evalMemo _ _) (hbody _)
          · refine Yields.read fun ctx _ => ?_
            split
            · exact Yields.pure trivial
            · split
              · exact hbody _
              · refine (yields_bindStructArgs {} fun p hp => ?_).bind fun tmp htmp => yields_inOverlay htmp (hbody _)
                exact hacts _ (List.of_mem_zip (List.of_mem_zip hp).2).2

omit hdeeper

/-- What an entry does on a call is of the type it declares. Its functions are those of the host; a function with a
    body declares no type. -/
structure DeclaresOf (entry : FuncEntry D) (t : ValueType) : Prop where
  ast : ∀ f, (entry.astFuncHandler <|> entry.astFunc) = some f → ∀ node ctx v, f node ctx = .ok v → v.type = t
  model : ∀ f, entry.modelProducer = some f → ∀ node ctx v, f node ctx = .ok v → v.type = t
  producer : entry.structProducer.isSome → entry.syncFunc = none → entry.valueFunc = none → t = .struct
  body : entry.definedBody = none
  record : entry.definedReturnFields ≠ [] → t = .struct
  typed : ∀ f, entry.typedFunc = some f → ∀ args, (f args).type = t
  value : ∀ f, entry.typedFunc = none → entry.valueFunc = some f → ∀ args, (f args).type = t
  structs : entry.structFields.isSome → entry.structProducer = none → entry.syncFunc.isSome → t = .number
  numbers : entry.typedFunc = none → entry.valueFunc = none → entry.syncFunc.isSome → t = .number
  native : entry.native ≠ .none → t = .number

/-- The functions and capabilities of a registry give what they declare, and capabilities do not tell nodes apart that
    `cxpr_eval_ast_equal` does not. -/
structure Faithful (reg : Registry D) : Prop where
  declares : ∀ name entry t, reg.find name = some entry → entry.returnType = some t → DeclaresOf entry t
  resolves : ∀ target capability, reg.selectIndexCapability target = .ok (some capability) →
    ∀ node offset ctx v, capability.resolve node offset ctx = .ok v → v.type = capability.resultType
  selects : ∀ a b, astEqual a b = true → reg.selectIndexCapability a = reg.selectIndexCapability b

omit [Double D] in
theorem registryCallTyped_type {t : ValueType} {args : List (Value D)}
    {v : Value D} (hfind : reg.find name = some entry) (hdeclares : DeclaresOf entry t)
    (h : registryCallTyped reg name args = .ok v) : v.type = t := by
  simp only [registryCallTyped, hfind] at h
  split at h
  · cases h
  split at h
  · cases h
  split at h
  · cases h
  split at h
  · rename_i f htyped
    cases h
    exact hdeclares.typed f htyped args
  · rename_i f htyped hvalue
    cases h
    exact hdeclares.value f htyped hvalue args
  · rename_i f htyped hvalue hsync
    split at h
    · cases h
    · obtain ⟨values, -, hret⟩ := bind_eq_ok.mp h
      cases hret
      exact (hdeclares.numbers htyped hvalue (by simp [hsync])).symm
  · cases h

theorem yields_evalTernary {message : String} {c t e : EvalM D (Value D)} {P : Value D → Prop} (hc : Keeps reg c)
    (ht : Yields (MemoFits reg) t P) (he : Yields (MemoFits reg) e P) :
    Yields (MemoFits reg) (evalTernary message c t e) P := by
  refine hc.andThen fun v => Yields.andThen (Yields.lift fun _ _ => trivial) fun b => ?_
  cases b with
  | true => exact ht
  | false => exact he

/-- The value of a call that is not a three-argument `if` has the type that its function declares. -/
def Declared (reg : Registry D) (name : String) (args : List (Ast D)) (v : Value D) : Prop :=
  ∀ entry t, reg.find name = some entry → entry.returnType = some t → (name = "if" → args.length ≠ 3) → v.type = t

theorem declared_of (hreg : Faithful reg)
    (hfind : reg.find name = some entry) {v : Value D}
    (h : ∀ t, DeclaresOf entry t → (name = "if" → args.length ≠ 3) → v.type = t) : Declared reg name args v := by
  intro entry' t hfind' ht hif
  obtain rfl : entry = entry' := by simpa [hfind] using hfind'
  exact h t (hreg.declares name entry t hfind ht) hif

theorem yields_evalCall (hreg : Faithful reg) (hdeeper : ∀ ast, Keeps reg (deeper ast)) {argNames : List (Option String)} {acts : List (EvalM D (Value D))}
    (hacts : KeepsAll reg acts) (hlen : acts.length = args.length) :
    Yields (MemoFits reg) (evalCall reg deeper name args argNames acts) (Declared reg name args) := by
  unfold evalCall
  refine Yields.read fun ctx hctx => ?_
  cases hfind : reg.find name with
  | none => exact yields_evalError _ _
  | some entry =>
    have hnumber : ∀ d : D, (∀ t, DeclaresOf entry t → t = .number) → Declared reg name args (.number d) :=
      fun d h => declared_of hreg hfind fun t ht _ => (h t ht).symm
    dsimp only
    split
    · rename_i f hast
      exact Yields.lift fun v hv => declared_of hreg hfind fun t ht _ => ht.ast f hast _ _ v hv
    rename_i hnoast
    split
    · rename_i hproducer
      simp only [Bool.and_eq_true, Option.isNone_iff_eq_none] at hproducer
      have hstruct : ∀ s, Declared reg name args (.struct s) := fun s =>
        declared_of hreg hfind fun t ht _ => (ht.producer hproducer.1.1.1 hproducer.1.1.2 hproducer.1.2).symm
      split
      · exact Yields.pure (hstruct _)
      · exact Yields.andThen (keeps_structResult hacts) fun _ => Yields.pure (hstruct _)
    refine Yields.bind (Yields.lift fun ordered hordered => callBindArgs_mem hordered) fun ordered hordered => ?_
    obtain ⟨hcount, hmem⟩ := hordered
    have hkeeps : KeepsAll reg (ordered.map (·.2)) := by
      intro act hact
      obtain ⟨p, hp, rfl⟩ := List.mem_map.mp hact
      exact hacts _ (List.of_mem_zip (hmem p hp)).2
    split
    · rename_i f hmodel
      exact Yields.lift fun v hv => declared_of hreg hfind fun t ht _ => ht.model f hmodel _ _ v hv
    split
    · rename_i hdefined
      refine (yields_evalDefinedFunction hdeeper hkeeps).mono fun v hv => declared_of hreg hfind fun t ht _ => ?_
      rw [hv ht.body]
      refine (ht.record ?_).symm
      simpa [ht.body] using hdefined
    split
    · rename_i hproducer
      simp only [Bool.and_eq_true, Option.isNone_iff_eq_none] at hproducer
      refine Yields.andThen (keeps_structResult hkeeps) fun _ => Yields.pure ?_
      exact declared_of hreg hfind fun t ht _ => (ht.producer hproducer.1.1 hproducer.1.2 hproducer.2).symm
    split
    · rename_i f hfields hnone hsync
      split
      · exact yields_evalError _ _
      · refine Yields.andThen (Yields.lift fun _ _ => trivial) fun values => Yields.pure (hnumber _ fun t ht => ?_)
        exact ht.structs (by simp [hfields]) hnone (by simp [hsync])
    · split
      · rename_i c t e hif horder
        have hthree : args.length = 3 := by simpa [hlen, hcount] using congrArg List.length horder
        have hbranches := hkeeps
        rw [horder] at hbranches
        refine (yields_evalTernary (hbranches c (by simp)) (hbranches t (by simp)) (hbranches e (by simp))).mono ?_
        exact fun v _ => declared_of hreg hfind fun t _ hnot => (hnot (by simpa using hif) hthree).elim
      · split
        · exact yields_evalError _ _
        · split
          · rename_i hnative _
            exact Yields.pure (hnumber _ fun t ht => ht.native (by simp [hnative]))
          · rename_i f a hnative horder
            refine Yields.andThen (keeps_scalarArg (hkeeps a (by simp [horder]))) fun x => ?_
            exact Yields.pure (hnumber _ fun t ht => ht.native (by simp [hnative]))
          · rename_i f a b hnative horder
            refine Yields.andThen (keeps_scalarArg (hkeeps a (by simp [horder]))) fun x => ?_
            refine Yields.andThen (keeps_scalarArg (hkeeps b (by simp [horder]))) fun y => ?_
            exact Yields.pure (hnumber _ fun t ht => ht.native (by simp [hnative]))
          · rename_i f a b c hnative horder
            refine Yields.andThen (keeps_scalarArg (hkeeps a (by simp [horder]))) fun x => ?_
            refine Yields.andThen (keeps_scalarArg (hkeeps b (by simp [horder]))) fun y => ?_
            refine Yields.andThen (keeps_scalarArg (hkeeps c (by simp [horder]))) fun z => ?_
            exact Yields.pure (hnumber _ fun t ht => ht.native (by simp [hnative]))
          · split
            · exact yields_evalError _ _
            · refine Yields.andThen (keeps_evalAll hkeeps) fun values => Yields.lift fun v hv => ?_
              exact declared_of hreg hfind fun t ht _ => registryCallTyped_type hfind ht hv

theorem yields_evalCall_if (hif : plainIf reg = true) {argNames : List (Option String)}
    (hlen : args.length = 3) (hnamed : Ast.callUsesNamedArgs 3 argNames = false) {c t e : EvalM D (Value D)}
    {P : Value D → Prop} (hc : Keeps reg c) (ht : Yields (MemoFits reg) t P) (he : Yields (MemoFits reg) e P) :
    Yields (MemoFits reg) (evalCall reg deeper "if" args argNames [c, t, e]) P := by
  unfold evalCall
  refine Yields.read fun ctx hctx => ?_
  cases hfind : reg.find "if" with
  | none => exact yields_evalError _ _
  | some entry =>
    simp only [plainIf, hfind, Bool.and_eq_true, Option.isNone_iff_eq_none, List.isEmpty_iff] at hif
    obtain ⟨⟨⟨⟨⟨hast, hproducer⟩, hmodel⟩, hbody⟩, hrecord⟩, hstructs⟩ := hif
    obtain ⟨a, a', a'', rfl⟩ := List.length_eq_three.mp hlen
    have hbind : callBindArgs entry ([a, a', a''].zip [c, t, e]) argNames = .ok [(a, c), (a', t), (a'', e)] := by
      simp [callBindArgs, hnamed, maxCallArgs]
    simp only [hast, hmodel, hbody, hrecord]
    split
    · rename_i hnot
      simp_all
    rw [hbind]
    refine Yields.bind (Yields.lift fun ordered hordered => (Except.ok.inj hordered).symm) ?_
    rintro _ rfl
    simp only [Option.isSome_none, List.isEmpty_nil, Bool.not_true, Bool.or_false, Bool.false_eq_true, if_false,
      beq_self_eq_true]
    split
    · rename_i hnot
      simp_all
    · split
      · rename_i f hfields hnone hsync
        simp [hfields, hnone, hsync] at hstructs
      · exact yields_evalTernary hc ht he

end

end Cxpr.Typecheck
