import Cxpr.Typing.Operators
import Cxpr.Typing.Reported

/-! Evaluation gives values of the certain types, node by node, and so `cxpr_typecheck` is right wherever the type it
    reports is certain. -/

namespace Cxpr.Typecheck
open Eval Stateful
variable {D : Type} [Double D] {reg : Registry D}

variable {name : String} {args : List (Ast D)} {acts : List (EvalM D (Value D))} {ks : List Known}
variable {target index : Ast D} {indexAct targetAct : EvalM D (Value D)}

theorem keeps_producerKey {argNames : List (Option String)}
    {ordered : List (Ast D × EvalM D (Value D))} (h : KeepsAll reg (ordered.map (·.2))) :
    Keeps reg (producerKey name args argNames ordered) := by
  refine Yields.read fun ctx hctx => ?_
  dsimp only
  split
  · exact Yields.pure trivial
  · split
    · exact Yields.pure trivial
    · refine Yields.andThen (Yields.tryCatch ?_ fun e => Yields.pure trivial) fun found => ?_
      · exact (keeps_scalarArgs h).map fun _ _ => trivial
      · split
        · exact Yields.pure trivial
        · exact Yields.pure trivial

theorem keeps_evalProducerAccess {deeper : Ast D → EvalM D (Value D)} (hdeeper : ∀ ast, Keeps reg (deeper ast)) {argNames : List (Option String)} {field : String} (hacts : KeepsAll reg acts) :
    Keeps reg (evalProducerAccess reg deeper name args argNames field acts) := by
  unfold evalProducerAccess
  dsimp only
  split
  · exact yields_evalError _ _
  rename_i entry hfind
  split
  · exact yields_evalError _ _
  refine Yields.bind (Yields.lift fun ordered hordered => (callBindArgs_mem hordered).2) fun ordered hmem => ?_
  have hkeeps : KeepsAll reg (ordered.map (·.2)) := by
    intro act hact
    obtain ⟨p, hp, rfl⟩ := List.mem_map.mp hact
    exact hacts _ (List.of_mem_zip (hmem p hp)).2
  split
  · exact Yields.read fun ctx _ => Yields.lift fun _ _ => trivial
  split
  · refine (keeps_evalAll hkeeps).andThen fun values => ?_
    refine Yields.andThen (yields_inOverlay (bindArgs_evalMemo _ _) (keeps_evalReturnFields hdeeper _)) fun fields => ?_
    exact Yields.lift fun _ _ => trivial
  · refine (keeps_producerKey hkeeps).andThen fun key => Yields.read fun ctx _ => ?_
    split
    · exact Yields.lift fun _ _ => trivial
    · exact (keeps_structResult hkeeps).andThen fun _ => Yields.lift fun _ _ => trivial

abbrev FitsActs (reg : Registry D) (ks : List Known) (acts : List (EvalM D (Value D))) : Prop :=
  List.Forall₂ (fun k act => Yields (MemoFits reg) act (Fits k)) ks acts

theorem FitsActs.keepsAll (h : FitsActs reg ks acts) :
    KeepsAll reg acts := by
  induction h with
  | nil => exact fun act hact => nomatch hact
  | cons hact _ ih =>
    intro act hmem
    rcases List.mem_cons.mp hmem with rfl | hmem
    · exact keeps_of_yields hact
    · exact ih act hmem

theorem yields_evalAll (h : FitsActs reg ks acts) :
    Yields (MemoFits reg) (evalAll acts) (FitsList ks) := by
  induction h with
  | nil => exact Yields.pure .nil
  | cons hact _ ih => exact hact.bind fun v hv => ih.bind fun vs hvs => Yields.pure (.cons hv hvs)

theorem yields_evalRecordFields {names : List String}
    (h : FitsActs reg ks acts) :
    Yields (MemoFits reg) (evalRecordFields (names.zip acts)) (FitsFields names ks) := by
  induction h generalizing names with
  | nil =>
    rw [List.zip_nil_right]
    exact Yields.pure (.noValues names)
  | cons hact _ ih =>
    cases names with
    | nil => exact Yields.pure (.noNames _)
    | cons name names =>
      refine hact.bind fun v hv => ?_
      refine Yields.andThen (Yields.modify fun c hc => memoFits_update hc fun f => setValue_evalMemo f name v) fun _ => ?_
      exact ih.bind fun fields hfields => Yields.pure (.cons hv hfields)

theorem keeps_resolveCapability {capability : IndexCapability D} {index : EvalM D (Value D)}
    (h : Keeps reg index) :
    Yields (MemoFits reg) (resolveCapability capability target index) fun v =>
      ∃ offset ctx, capability.resolve target offset ctx = .ok v := by
  refine h.andThen fun i => Yields.andThen (Yields.lift fun _ _ => trivial) fun offset => ?_
  exact Yields.read fun ctx _ => Yields.lift fun v hv => ⟨offset, ctx, hv⟩

theorem keeps_capabilityIndex (h : Keeps reg indexAct) (moved : Bool) (d : D) :
    Keeps reg (if moved then return .number d else indexAct) := by
  split
  · exact Yields.pure trivial
  · exact h

theorem keeps_evalIndex (ht : Keeps reg targetAct)
    (hi : Keeps reg indexAct) : Keeps reg (evalIndex reg target index targetAct indexAct) := by
  unfold evalIndex
  refine Yields.read fun ctx hctx => ?_
  dsimp only
  split
  · exact keeps_arrayIndex hi
  refine Yields.iteAndThen (Yields.lift fun _ _ => trivial) (Yields.pure trivial) fun capability => ?_
  cases capability with
  | some capability => exact keeps_of_yields (keeps_resolveCapability (keeps_capabilityIndex hi _ _))
  | none =>
    cases reg.lookbackResolver with
    | none =>
      refine ht.andThen fun v => ?_
      cases v with
      | array values => exact keeps_arrayIndex hi
      | _ => exact yields_evalError _ _
    | some resolver =>
      refine Yields.andThen (Yields.tryCatch (ht.map fun _ _ => trivial) fun e => Yields.pure trivial) fun value => ?_
      split
      · exact keeps_arrayIndex hi
      · refine Yields.read fun ctx _ => Yields.andThen (Yields.lift fun _ _ => trivial) fun resolved => ?_
        cases resolved with
        | some v => exact Yields.pure trivial
        | none =>
          dsimp only
          refine Yields.ite (yields_evalError _ _) (Yields.andThen (Yields.lift fun _ _ => trivial) fun capability => ?_)
          cases capability with
          | some capability => exact keeps_of_yields (keeps_resolveCapability (keeps_capabilityIndex hi _ _))
          | none => exact yields_evalError _ _

def flatTarget (target index : Ast D) : Ast D :=
  (match Ir.lookbackLiteralOffset index with
    | some offset => flattenLookback offset target
    | none => (0, target, false)).2.1

theorem flatTarget_of_not_index (index : Ast D) (h : isIndex target = false) :
    flatTarget target index = target := by
  unfold flatTarget
  split
  · cases target <;> first | rfl | cases h
  · rfl

theorem select_flattenLookback (h : unserved reg target = true) (offset : Nat) :
    reg.selectIndexCapability (flattenLookback offset target).2.1 = .ok none := by
  have hplain : ∀ a : Ast D, unselected (reg.selectIndexCapability a) = true → reg.selectIndexCapability a = .ok none := by
    intro a ha
    unfold unselected at ha
    split at ha
    · assumption
    · cases ha
  fun_induction flattenLookback offset target with
  | case1 offset target i summed hsum ih =>
    simp only [unserved, Bool.and_eq_true] at h
    exact ih h.2
  | case2 offset target i hsum =>
    simp only [unserved, Bool.and_eq_true] at h
    exact hplain _ h.1
  | case3 offset target hnot =>
    unfold unserved at h
    split at h
    · rename_i target i
      exact (hnot target i rfl).elim
    · exact hplain _ h

theorem select_flatTarget (index : Ast D) (h : unserved reg target = true) :
    reg.selectIndexCapability (flatTarget target index) = .ok none := by
  unfold flatTarget
  split
  · exact select_flattenLookback h _
  · unfold unserved at h
    split at h
    · simp only [Bool.and_eq_true] at h
      have h := h.1
      split at h
      · assumption
      · cases h
    · split at h
      · assumption
      · cases h

theorem yields_evalIndex {P : Value D → Prop}
    (hresolver : reg.lookbackResolver = none) (hname : isIdentifier target = false) (hi : Keeps reg indexAct)
    (hserved : ∀ capability, reg.selectIndexCapability (flatTarget target index) = .ok (some capability) →
      ∀ offset ctx v, capability.resolve (flatTarget target index) offset ctx = .ok v → P v)
    (harray : reg.selectIndexCapability (flatTarget target index) = .ok none →
      Yields (MemoFits reg) targetAct fun v => ∀ values, v = .array values →
        Yields (MemoFits reg) (arrayIndex values indexAct) P) :
    Yields (MemoFits reg) (evalIndex reg target index targetAct indexAct) P := by
  unfold evalIndex
  refine Yields.read fun ctx hctx => ?_
  dsimp only
  split
  · rename_i values hvalues
    split at hvalues
    · cases hname
    · cases hvalues
  simp only [hresolver, Option.isNone_none, Bool.or_true, if_true]
  refine Yields.bind (Yields.lift fun capability hselect => hselect) fun capability hselect => ?_
  split
  · rename_i capability
    refine Yields.mono (keeps_resolveCapability (keeps_capabilityIndex hi _ _)) fun v hv => ?_
    obtain ⟨offset, ctx, hv⟩ := hv
    exact hserved capability hselect offset ctx v hv
  · refine (harray hselect).bind fun v hv => ?_
    split
    · exact hv _ rfl
    · exact yields_evalError _ _

theorem fits_element {values : List (Value D)} {n : Nat} {v : Value D}
    (hvalues : FitsList ks values) (hv : values[n]? = some v)
    (hindex : ∀ d, index = .number d → Ir.constantIndex (some (.number d)) = some n) :
    Fits (certainSelected ks index) v := by
  unfold certainSelected
  split
  · rename_i k hk
    unfold literalElement at hk
    split at hk
    · rename_i d
      split at hk
      · cases hk
      · have hsize := hindex d rfl
        unfold Ir.constantIndex at hsize
        dsimp only at hsize
        split at hsize
        · cases hsize
        · cases hsize
          have hfits := hvalues.get hk hv
          exact .mk (fun t ht => hfits.type ht) (.other v) fun _ hshape => Option.some.inj hshape ▸ hfits.literal
    · cases hk
  · exact fits_scalar fun t ht => hvalues.element hv ht

theorem yields_arrayIndex {values : List (Value D)}
    (hvalues : FitsList ks values)
    (hi : Yields (MemoFits reg) indexAct fun i => ∀ d, index = .number d → i = .number d) :
    Yields (MemoFits reg) (arrayIndex values indexAct) (Fits (certainSelected ks index)) := by
  refine hi.bind fun i hliteral => ?_
  split
  · exact yields_evalError _ _
  · rename_i n hn
    split
    · rename_i v hv
      exact Yields.pure (fits_element hvalues hv fun d hd => hliteral d hd ▸ hn)
    · exact yields_evalError _ _

theorem fits_evalIndex (hreg : Faithful reg)
    (ht : Yields (MemoFits reg) targetAct (Fits (certain reg target)))
    (hi : Yields (MemoFits reg) indexAct fun i => ∀ d, index = .number d → i = .number d) :
    Yields (MemoFits reg) (evalIndex reg target index targetAct indexAct)
      (Fits (certainIndex reg target index (certain reg target))) := by
  have hkeeps : ∀ c : Certainty, (∀ t, c ≠ .sure t) →
      Yields (MemoFits reg) (evalIndex reg target index targetAct indexAct) (Fits (.mk c .other none)) := fun c hc =>
    (keeps_evalIndex (keeps_of_yields ht) (keeps_of_yields hi)).mono fun v _ => fits_unsure hc v
  unfold certainIndex
  split
  · rename_i capability hselect
    split
    · exact hkeeps _ nofun
    · rename_i hplain
      simp only [Bool.or_eq_true, not_or, Bool.not_eq_true, Option.isSome_eq_false_iff, Option.isNone_iff_eq_none]
        at hplain
      obtain ⟨⟨hname, hindex⟩, hresolver⟩ := hplain
      have hflat := flatTarget_of_not_index index hindex
      refine yields_evalIndex hresolver hname (keeps_of_yields hi) ?_ ?_
      · rw [hflat, hselect]
        rintro _ ⟨⟩ offset ctx v hv
        refine .mk (fun t ht => ?_) (.other v) nofun
        cases ht
        exact hreg.resolves target capability hselect target offset ctx v hv
      · rw [hflat, hselect]
        rintro ⟨⟩
  · rename_i ks hks hnone
    split
    · rename_i hplain
      simp only [Bool.and_eq_true, Option.isNone_iff_eq_none] at hplain
      obtain ⟨hresolver, hunserved⟩ := hplain
      refine yields_evalIndex hresolver ?_ (keeps_of_yields hi) ?_ ?_
      · cases target with
        | identifier name => cases hks
        | _ => rfl
      · intro capability hselect
        rw [select_flatTarget index hunserved] at hselect
        cases hselect
      · refine fun _ => ht.mono fun v hv values hvalues => ?_
        have hshape := hv.resolved hks
        rw [hvalues] at hshape
        cases hshape with
        | array hlist => exact yields_arrayIndex hlist hi
    · exact hkeeps _ (doubted_ne_sure _)
  · exact (keeps_evalIndex (keeps_of_yields ht) (keeps_of_yields hi)).mono fun v _ => fits_untyped v
  · exact hkeeps _ nofun

theorem fits_memoized (hreg : Faithful reg) {ast : Ast D} {act : EvalM D (Value D)}
    (h : Yields (MemoFits reg) act (Fits (certain reg ast))) :
    Yields (MemoFits reg) (memoized reg name ast act) (Fits (certain reg ast)) := by
  unfold memoized
  split
  · refine (yields_memoGet ast).bind fun found hfound => ?_
    cases found with
    | some v => exact Yields.pure (hfound v rfl)
    | none => exact h.bind fun v hv => (yields_memoSet hreg.selects hv).andThen fun _ => Yields.pure hv
  · exact h

theorem fits_fieldOfValue {base : EvalM D (Value D)} {k : Known} {field : String}
    (h : Yields (MemoFits reg) base (Fits k)) :
    Yields (MemoFits reg) (evalNode.fieldOfValue field base) (Fits (.scalar (certainField k field))) := by
  refine h.bind fun v hv => ?_
  split
  · rename_i fields
    refine Yields.lift fun v hfield => fits_scalar fun t ht => ?_
    have hget : structGetField fields field = some v := by
      unfold structFieldValue at hfield
      split at hfield <;> cases hfield
      assumption
    unfold certainField at ht
    split at ht
    · rename_i names ks hks
      cases hv.resolved hks with
      | record hfields => exact hfields.field hget ht
    · cases ht
    · cases ht
  · exact yields_evalError _ _

theorem fits_join {act : EvalM D (Value D)} {k : Known} {t e : Certainty} (h : Yields (MemoFits reg) act (Fits k))
    (hk : k.type = t ∨ k.type = e) : Yields (MemoFits reg) act (Fits (.scalar (certainJoin t e))) := by
  refine h.mono fun v hv => fits_scalar fun type htype => ?_
  unfold certainJoin at htype
  split at htype
  · rename_i heq
    subst heq
    exact hv.type ((hk.elim id id).trans htype)
  · cases htype

omit [Double D] in
theorem declared_eq_sure {t : ValueType} (h : declared reg name = .sure t) :
    ∃ entry, reg.find name = some entry ∧ entry.returnType = some t := by
  unfold declared at h
  cases htype : (reg.find name).bind (·.returnType) with
  | none => simp [htype] at h
  | some t' =>
    obtain rfl : t' = t := by simpa [htype] using h
    exact Option.bind_eq_some_iff.mp htype

theorem fits_evalCall (hreg : Faithful reg) {deeper : Ast D → EvalM D (Value D)} (hdeeper : ∀ ast, Keeps reg (deeper ast))
    (name : String) (argNames : List (Option String))
    (h : FitsActs reg (certainList reg args) (evalActs reg deeper args)) :
    Yields (MemoFits reg) (evalCall reg deeper name args argNames (evalActs reg deeper args))
      (Fits (certain reg (.call name args argNames))) := by
  have hlen : (evalActs reg deeper args).length = args.length := by
    rw [← h.length_eq, length_certainList]
  have hdeclared : Yields (MemoFits reg) (evalCall reg deeper name args argNames (evalActs reg deeper args))
      (Declared reg name args) := yields_evalCall hreg hdeeper h.keepsAll hlen
  show Yields _ _ (Fits (.scalar (certainCall reg name argNames (certainList reg args))))
  unfold certainCall
  split
  · rename_i c t e hname hargs
    obtain rfl : name = "if" := by simpa using hname
    split
    · rename_i hplain
      simp only [Bool.and_eq_true, Bool.not_eq_true'] at hplain
      have hthree : args.length = 3 := by
        rw [← hlen, ← h.length_eq, hargs]
        rfl
      rw [hargs] at h
      obtain ⟨_, _, _, hacts⟩ := List.length_eq_three.mp (hlen.trans hthree)
      rw [hacts] at h ⊢
      cases h with
      | cons hc h =>
        cases h with
        | cons ht h =>
          cases h with
          | cons he _ =>
            exact yields_evalCall_if hplain.1 hthree hplain.2 (keeps_of_yields hc) (fits_join ht (.inl rfl))
              (fits_join he (.inr rfl))
    · exact hdeclared.mono fun v _ => fits_scalar fun t ht => (doubted_ne_sure _ t ht).elim
  · rename_i hnot
    refine hdeclared.mono fun v hv => fits_scalar fun t ht => ?_
    obtain ⟨entry, hfind, htype⟩ := declared_eq_sure ht
    refine hv entry t hfind htype fun hname hthree => ?_
    obtain ⟨c, t, e, hargs⟩ := List.length_eq_three.mp ((length_certainList args).trans hthree)
    exact hnot c t e (by simp [hname]) hargs

mutual

theorem fits_evalNode (hreg : Faithful reg) {deeper : Ast D → EvalM D (Value D)}
    (hdeeper : ∀ ast, Keeps reg (deeper ast)) :
    ∀ ast, Yields (MemoFits reg) (evalNode reg deeper ast) (Fits (certain reg ast))
  | .number _ => by
    rw [evalNode]
    exact Yields.pure (fits_scalar fun t ht => by cases ht; rfl)
  | .int64 _ => by
    rw [evalNode]
    exact Yields.pure (fits_scalar fun t ht => by cases ht; rfl)
  | .bool _ => by
    rw [evalNode]
    exact Yields.pure (fits_scalar fun t ht => by cases ht; rfl)
  | .string _ => by
    rw [evalNode]
    exact Yields.pure (fits_scalar fun t ht => by cases ht; rfl)
  | .array es => by
    rw [evalNode]
    refine (yields_evalAll (fits_evalActs hreg hdeeper es)).bind fun vs hvs => Yields.pure ?_
    exact .mk (fun t ht => by cases ht; rfl) (.array hvs) fun _ hshape => Option.some.inj hshape ▸ .array hvs
  | .record names values => by
    rw [evalNode]
    refine (yields_inOverlay rfl (yields_evalRecordFields (fits_evalActs hreg hdeeper values))).bind fun fields hfields => ?_
    exact Yields.pure <| .mk (fun t ht => by cases ht; rfl) (.record hfields) fun _ hshape =>
      Option.some.inj hshape ▸ .record hfields
  | .identifier name => by
    rw [evalNode]
    refine Yields.read fun ctx hctx => ?_
    split
    · exact Yields.pure (fits_untyped _)
    · exact yields_evalError _ _
  | .param name => by
    rw [evalNode]
    refine Yields.read fun ctx hctx => ?_
    split
    · exact Yields.pure (fits_untyped _)
    · exact yields_evalError _ _
  | .fieldAccess object field => by
    rw [evalNode]
    exact (keeps_evalFieldAccess object field).mono fun v _ => fits_untyped v
  | .chainAccess path => by
    rw [evalNode]
    exact Yields.read fun ctx _ => Yields.lift fun v _ => fits_untyped v
  | .producerAccess name args argNames field => by
    rw [evalNode]
    split
    · exact Yields.read fun ctx _ => Yields.lift fun v _ => fits_untyped v
    · exact (keeps_evalProducerAccess hdeeper (fits_evalActs hreg hdeeper args).keepsAll).mono fun v _ => fits_untyped v
  | .fieldOf base field => by
    cases base with
    | call name args argNames =>
      have hargs := fits_evalActs hreg hdeeper args
      have hcall := fits_evalCall hreg hdeeper name argNames hargs
      unfold evalNode
      split
      · split
        · exact (keeps_evalProducerAccess hdeeper hargs.keepsAll).mono fun v _ => fits_untyped v
        · exact fits_fieldOfValue (fits_memoized hreg hcall)
      · exact fits_fieldOfValue hcall
    | _ =>
      unfold evalNode
      exact fits_fieldOfValue (fits_evalNode hreg hdeeper _)
  | .index target i => by
    rw [evalNode]
    refine fits_evalIndex hreg (fits_evalNode hreg hdeeper target) ?_
    have hindex := keeps_of_yields (fits_evalNode hreg hdeeper i)
    cases i with
    | number d =>
      rw [evalNode]
      exact Yields.pure fun d' hd => by cases hd; rfl
    | _ => exact hindex.mono fun v _ d hd => nomatch hd
  | .binary op l r => by
    rw [evalNode]
    refine (yields_evalBinary ((fits_evalNode hreg hdeeper l).mono fun v hv t ht => hv.type ht)
      ((fits_evalNode hreg hdeeper r).mono fun v hv t ht => hv.type ht)).mono fun v hv => fits_scalar hv
  | .unary op a => by
    rw [evalNode]
    refine (fits_evalNode hreg hdeeper a).bind fun v hv => Yields.lift fun r hr => ?_
    obtain ⟨hminus, hnot⟩ := unaryValue_type hr
    cases op with
    | not => exact fits_scalar fun t ht => by cases ht; exact hnot rfl
    | minus =>
      refine fits_scalar fun t ht => ?_
      rw [← hminus rfl]
      unfold certainUnary at ht
      dsimp only at ht
      split at ht <;> cases ht
      rename_i hnumber
      exact hv.type hnumber
  | .call name args argNames => by
    rw [evalNode]
    exact fits_memoized hreg (fits_evalCall hreg hdeeper name argNames (fits_evalActs hreg hdeeper args))
  | .ternary c t e => by
    rw [evalNode]
    exact yields_evalTernary (keeps_of_yields (fits_evalNode hreg hdeeper c))
      (fits_join (fits_evalNode hreg hdeeper t) (.inl rfl)) (fits_join (fits_evalNode hreg hdeeper e) (.inr rfl))

theorem fits_evalActs (hreg : Faithful reg) {deeper : Ast D → EvalM D (Value D)}
    (hdeeper : ∀ ast, Keeps reg (deeper ast)) :
    ∀ es, FitsActs reg (certainList reg es) (evalActs reg deeper es)
  | [] => .nil
  | e :: es => .cons (fits_evalNode hreg hdeeper e) (fits_evalActs hreg hdeeper es)

end

theorem fits_evalDepth (hreg : Faithful reg) (depth : Nat) (ast : Ast D) :
    Yields (MemoFits reg) (evalDepth reg depth ast) (Fits (certain reg ast)) := by
  induction depth generalizing ast with
  | zero => exact fun _ _ _ _ h => nomatch h
  | succ depth ih => exact fits_evalNode hreg (fun ast => keeps_of_yields (ih ast)) ast

theorem memoFits_memoEnter {ctx : Context D} (hidle : Idle ctx) : memoEnter ctx ∈ MemoFits reg := by
  cases ctx with
  | nil => exact fun f hf => nomatch hf
  | cons f parent => exact memoFits_cons parent (by simp [hidle f rfl])

/-- Where the type that `cxpr_typecheck` reports does not rest on a guess, a successful evaluation gives a value of
    that type. -/
theorem typecheck_sound (hreg : Faithful reg) {ast : Ast D} {T : ValueType}
    (hcheck : typecheck ast reg = .ok (some T)) (hsure : ∃ t, (certain reg ast).type = .sure t) {ctx ctx' : Context D}
    (hidle : Idle ctx) {depth : Nat} {v : Value D} (h : evalAst reg depth ast ctx = .ok (v, ctx')) : v.type = T := by
  obtain ⟨t, ht⟩ := hsure
  have hreported : (Certainty.sure t).Allows (some T) := ht ▸ (agrees_infer reg ast).type (some T) hcheck
  obtain rfl : T = t := Option.some.inj hreported
  obtain ⟨_, -, h⟩ := bind_eq_ok.mp h
  obtain ⟨⟨u, final⟩, hrun, hret⟩ := bind_eq_ok.mp h
  cases hret
  obtain ⟨-, hfits⟩ := fits_evalDepth hreg depth ast _ (memoFits_memoEnter hidle) _ _ hrun
  exact hfits.type ht

def signEntry : FuncEntry Int where
  name := "sign"
  syncFunc := some fun args => (args.headD 0).sign
  minArgs := 1
  maxArgs := 1
  returnType := some .number

theorem signEntry_declaresOf : DeclaresOf signEntry .number where
  ast := nofun
  model := nofun
  producer := nofun
  body := rfl
  record h := (h rfl).elim
  typed := nofun
  value := nofun
  structs := nofun
  numbers _ _ _ := rfl
  native h := (h rfl).elim

theorem signRegistry_faithful : Faithful { entries := [signEntry] : Registry Int } where
  declares name entry t hfind ht := by
    obtain rfl : entry = signEntry := List.mem_singleton.mp (List.mem_of_find?_eq_some hfind)
    cases ht
    exact signEntry_declaresOf
  resolves target capability h := nomatch h
  selects _ _ _ := rfl

/-- `sign(-3) + 1`. -/
def signPlusOne : Ast Int := .binary .plus (.call "sign" [.unary .minus (.number 3)] []) (.number 1)

theorem typecheck_sound_signPlusOne :
    ∃ v ctx', evalAst { entries := [signEntry] } 1 signPlusOne [{}] = .ok (v, ctx') ∧ v.type = .number := by
  obtain ⟨v, ctx', h⟩ : ∃ v ctx', evalAst { entries := [signEntry] } 1 signPlusOne [{}] = .ok (v, ctx') := ⟨_, _, rfl⟩
  exact ⟨v, ctx', h, typecheck_sound signRegistry_faithful rfl ⟨.number, rfl⟩ (by simp [Idle]) h⟩

theorem typecheck_minus_int64 :
    typecheck (.unary .minus (.int64 5)) ({ entries := [signEntry] } : Registry Int) = .ok (some .number) ∧
    ∃ v ctx', evalAst { entries := [signEntry] } 1 (.unary .minus (.int64 5)) [{}] = .ok (v, ctx') ∧
      v.type ≠ .number :=
  ⟨rfl, .int64 (-5), [{}], rfl, by decide⟩

end Cxpr.Typecheck
