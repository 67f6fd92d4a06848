import Cxpr.Typing.Certain

/-! What `cxpr_typecheck` reports agrees with what is certain: an untyped node gets no type, and a sure type is the one
    that is reported. -/

namespace Cxpr.Typecheck
open Eval
variable {D : Type} [Double D] {reg : Registry D}

def Certainty.Allows : Certainty → StaticType → Prop
  | .untyped, s => s = none
  | .guessed, _ => True
  | .sure t, s => s = some t

abbrev Allowed (c : Certainty) (type : Except Error StaticType) : Prop := ∀ s, type = .ok s → c.Allows s

mutual

inductive Agrees : Static → Known → Prop
  | mk {type : Except Error StaticType} {c : Certainty} {literal resolved : Shape Static} {literal' : Shape Known}
      {resolved' : Option (Shape Known)} (htype : Allowed c type) (hliteral : AgreesShape literal literal')
      (hresolved : ∀ shape, resolved' = some shape → AgreesShape resolved shape) :
      Agrees (.mk type literal resolved) (.mk c literal' resolved')

inductive AgreesShape : Shape Static → Shape Known → Prop
  | other : AgreesShape .other .other
  | array {es : List Static} {ks : List Known} (h : AgreesList es ks) : AgreesShape (.array es) (.array ks)
  | record (names : List String) {fs : List Static} {ks : List Known} (h : AgreesList fs ks) :
      AgreesShape (.record names fs) (.record names ks)

inductive AgreesList : List Static → List Known → Prop
  | nil : AgreesList [] []
  | cons {e : Static} {k : Known} {es : List Static} {ks : List Known} (h : Agrees e k) (hs : AgreesList es ks) :
      AgreesList (e :: es) (k :: ks)

end

def indexedType (static : Static) (index : Ast D) : Option (IndexCapability D) → Except Error StaticType
  | some capability => return some capability.resultType
  | none =>
    match static.resolved with
    | .array es => inferArrayElement es index
    | _ => do
      let _ ← static.type
      return none

omit [Double D]

variable {e : Static} {k : Known} {c : Certainty} {es : List Static} {ks : List Known} {s : StaticType}

theorem Agrees.type (h : Agrees e k) : Allowed k.type e.type := by
  cases h with
  | mk htype _ _ => exact htype

theorem Agrees.literal (h : Agrees e k) : AgreesShape e.literal k.literal := by
  cases h with
  | mk _ hliteral _ => exact hliteral

theorem Agrees.resolved (h : Agrees e k) {shape : Shape Known} (hk : k.resolved = some shape) :
    AgreesShape e.resolved shape := by
  cases h with
  | mk _ _ hresolved => exact hresolved shape hk

theorem agrees_scalar {type : Except Error StaticType} (h : Allowed c type) :
    Agrees (.scalar type) (.scalar c) :=
  .mk h .other fun _ hshape => Option.some.inj hshape ▸ .other

theorem AgreesList.forall₂ (h : AgreesList es ks) : List.Forall₂ Agrees es ks := by
  induction es generalizing ks with
  | nil =>
    cases h
    exact .nil
  | cons e es ih =>
    cases h with
    | cons hhead htail => exact .cons hhead (ih htail)

theorem allows_doubted (h : c.Allows s) : c.doubted.Allows s := by
  cases c with
  | sure t => trivial
  | untyped => exact h
  | guessed => trivial

variable [Double D]

theorem allowed_join {t e : Certainty} {a b : StaticType} (node : Ast D) (ht : t.Allows a) (he : e.Allows b) :
    Allowed (certainJoin t e) (join a b node) := by
  intro s hs
  unfold certainJoin
  split
  · rename_i heq
    subst heq
    cases t with
    | guessed => trivial
    | untyped =>
      obtain rfl : a = none := ht
      obtain rfl : b = none := he
      cases hs
      rfl
    | sure type =>
      obtain rfl : a = some type := ht
      obtain rfl : b = some type := he
      simp only [join, if_true, Except.ok.injEq] at hs
      exact hs.symm
  · trivial

theorem inferBinary_arithmetic {op : BinaryOp} (hop : op = .plus ∨ op = .minus ∨ op = .star ∨ op = .slash)
    {left right : Ast D} {lt rt : StaticType} (h : inferBinary op left right lt rt = .ok s) :
    (lt = some .struct ∨ rt = some .struct) ∧ s = some .struct ∨
    ¬(lt = some .struct ∨ rt = some .struct) ∧ s = some (if lt = some .int64 ∨ rt = some .int64 then .int64 else .number) := by
  rcases hop with rfl | rfl | rfl | rfl
  all_goals
    obtain ⟨-, -, h⟩ := bind_eq_ok.mp h
    dsimp only at h
    split at h
    · cases h
    split at h
    · rename_i hstruct
      cases h
      exact .inl ⟨by simpa using hstruct, rfl⟩
    rename_i hstruct
    refine .inr ⟨by simpa using hstruct, ?_⟩
    split at h
    · rename_i hint
      simp only [Bool.and_eq_true, decide_eq_true_eq] at hint
      cases h
      simp [hint.1]
    split at h
    · cases h
    · cases h
      simp

theorem allowed_inferBinary {op : BinaryOp} (left right : Ast D) {l r : Certainty} {lt rt : StaticType}
    (hl : l.Allows lt) (hr : r.Allows rt) : Allowed (certainBinary op l r) (inferBinary op left right lt rt) := by
  intro s hs
  have harith : op = .plus ∨ op = .minus ∨ op = .star ∨ op = .slash → (certainArithmetic l r).Allows s := by
    intro hop
    have htype := inferBinary_arithmetic hop hs
    unfold certainArithmetic
    split
    · obtain rfl : lt = some .struct := hl
      simpa [Certainty.Allows] using htype
    · obtain rfl : rt = some .struct := hr
      simpa [Certainty.Allows] using htype
    · obtain rfl : lt = some .int64 := hl
      obtain rfl : rt = some .int64 := hr
      simpa [Certainty.Allows] using htype
    · obtain rfl : lt = some .int64 := hl
      obtain rfl : rt = none := hr
      simpa [Certainty.Allows] using htype
    · obtain rfl : lt = none := hl
      obtain rfl : rt = some .int64 := hr
      simpa [Certainty.Allows] using htype
    · obtain rfl : lt = some .number := hl
      obtain rfl : rt = some .number := hr
      simpa [Certainty.Allows] using htype
    · trivial
  cases op with
  | plus | minus | star | slash => exact harith (by simp)
  | percent | power | lt | lte | gt | gte | and | or =>
    obtain ⟨-, -, hs⟩ := bind_eq_ok.mp hs
    cases hs
    rfl
  | eq | neq =>
    simp only [inferBinary] at hs
    split at hs <;> cases hs
    rfl

omit [Double D] in
theorem go_sure {t : ValueType} {types : List (Except Error StaticType)}
    (h : ∀ x ∈ types, Allowed (.sure t) x) (hgo : elementType.go (some t) types = .ok s) : s = some t := by
  induction types with
  | nil =>
    cases hgo
    rfl
  | cons x types ih =>
    have htail := ih fun y hy => h y (List.mem_cons_of_mem _ hy)
    cases x with
    | error e => cases hgo
    | ok current =>
      obtain rfl : current = some t := h _ List.mem_cons_self current rfl
      simp only [elementType.go, or_true, if_true] at hgo
      exact htail hgo

omit [Double D] in
theorem go_untyped {types : List (Except Error StaticType)} (h : ∀ x ∈ types, Allowed .untyped x)
    (hgo : elementType.go none types = .ok s) : s = none := by
  induction types with
  | nil =>
    cases hgo
    rfl
  | cons x types ih =>
    have htail := ih fun y hy => h y (List.mem_cons_of_mem _ hy)
    cases x with
    | error e => cases hgo
    | ok current =>
      obtain rfl : current = none := h _ List.mem_cons_self current rfl
      exact htail hgo

omit [Double D] in
theorem AgreesList.allowed (h : AgreesList es ks)
    (hall : ∀ k ∈ ks, k.type = c) : ∀ x ∈ es.map Static.type, Allowed c x := by
  induction es generalizing ks with
  | nil => simp
  | cons e es ih =>
    cases h with
    | cons hhead htail =>
      intro x hx
      rcases List.mem_cons.mp hx with rfl | hx
      · exact hall _ List.mem_cons_self ▸ hhead.type
      · exact ih htail (fun k hk => hall k (List.mem_cons_of_mem _ hk)) x hx

omit [Double D] in
theorem allowed_elementType (h : AgreesList es ks) :
    Allowed (certainElement ks) (elementType (es.map Static.type)) := by
  intro s hs
  cases h with
  | nil =>
    cases hs
    rfl
  | @cons e k es ks hhead htail =>
    simp only [certainElement]
    split
    · rename_i hall
      have hsame := (AgreesList.cons hhead htail).allowed (c := k.type) (by simpa using hall)
      cases hk : k.type with
      | guessed => trivial
      | untyped => exact go_untyped (hk ▸ hsame) hs
      | sure t =>
        rw [hk] at hsame
        have htail := fun x hx => hsame x (List.mem_cons_of_mem _ hx)
        rw [List.map_cons] at hs hsame
        cases he : e.type with
        | error err => simp [he, elementType, elementType.go] at hs
        | ok current =>
          obtain rfl : current = some t := hsame _ List.mem_cons_self current he
          simp only [elementType, he, elementType.go, true_or, if_true] at hs
          exact go_sure htail hs
    · trivial

omit [Double D] in
theorem AgreesList.getElem? (h : AgreesList es ks) (i : Nat) :
    (es[i]? = none ∧ ks[i]? = none) ∨ ∃ e k, es[i]? = some e ∧ ks[i]? = some k ∧ Agrees e k := by
  induction es generalizing ks i with
  | nil =>
    cases h
    exact .inl ⟨rfl, rfl⟩
  | cons e es ih =>
    cases h with
    | cons hhead htail =>
      cases i with
      | zero => exact .inr ⟨_, _, rfl, rfl, hhead⟩
      | succ i => exact ih htail i

theorem AgreesList.literalElement {es : List Static} {ks : List Known} (h : AgreesList es ks) (index : Ast D) :
    (literalElement es index = none ∧ literalElement ks index = none) ∨
    ∃ e k, literalElement es index = some e ∧ literalElement ks index = some k ∧ Agrees e k := by
  have hlen : es.length = ks.length := h.forall₂.length_eq
  cases index with
  | number d =>
    simp only [Typecheck.literalElement, hlen]
    split
    · exact .inl ⟨rfl, rfl⟩
    · exact h.getElem? _
  | _ => exact .inl ⟨rfl, rfl⟩

theorem allowed_inferArrayElement (h : AgreesList es ks) (index : Ast D) :
    Allowed (certainSelected ks index).type (inferArrayElement es index) := by
  unfold inferArrayElement certainSelected
  rcases h.literalElement index with ⟨hes, hks⟩ | ⟨e, k, hes, hks, hagrees⟩
  · rw [hes, hks]
    exact allowed_elementType h
  · rw [hes, hks]
    exact hagrees.type

omit [Double D] in
theorem AgreesList.find? {fs : List Static} (h : AgreesList fs ks) (names : List String)
    (field : String) :
    ((names.zip fs).find? (·.1 == field) = none ∧ (names.zip ks).find? (·.1 == field) = none) ∨
    ∃ name f k, (names.zip fs).find? (·.1 == field) = some (name, f) ∧
      (names.zip ks).find? (·.1 == field) = some (name, k) ∧ Agrees f k := by
  induction fs generalizing ks names with
  | nil =>
    cases h
    simp
  | cons f fs ih =>
    cases h with
    | cons hhead htail =>
      cases names with
      | nil => simp
      | cons name names =>
        simp only [List.zip_cons_cons, List.find?_cons]
        by_cases hname : (name == field) = true
        · simp only [hname]
          exact .inr ⟨name, _, _, rfl, rfl, hhead⟩
        · simp only [hname]
          exact ih htail names

theorem allowed_inferField {static : Static} {known : Known} (h : Agrees static known) (base : Ast D) (field : String) :
    Allowed (certainField known field) (inferField base static field) := by
  intro s hs
  obtain ⟨baseType, -, hs⟩ := bind_eq_ok.mp hs
  unfold certainField
  split
  · rename_i names ks hks
    have hshape := h.resolved hks
    cases hstatic : static.resolved with
    | other => rw [hstatic] at hshape; cases hshape
    | array es => rw [hstatic] at hshape; cases hshape
    | record names' fs =>
      rw [hstatic] at hshape hs
      cases hshape with
      | record _ hfields =>
        rcases hfields.find? names field with ⟨hnone, -⟩ | ⟨name, f, k, hf, hk, hagrees⟩
        · simp only [hnone, Option.map_none] at hs
          cases hs
        · simp only [hf, Option.map_some] at hs
          rw [hk]
          exact hagrees.type s hs
  · rename_i shape hnot hshape
    have hagrees := h.resolved hshape
    split at hs
    · rename_i names fs hstatic
      rw [hstatic] at hagrees
      cases hagrees with
      | record _ hfields => exact (hnot _ _ rfl).elim
    · split at hs
      · cases hs
      · cases hs
        rfl
  · trivial

theorem agrees_index {target index : Ast D} {static : Static} {known : Known} (h : Agrees static known)
    (indexType : Except Error StaticType) {resolved : Shape Static}
    (helement : ∀ es, static.resolved = .array es →
      resolved = ((literalElement es index).map Static.literal).getD .other)
    (hplain : (∀ es, static.resolved ≠ .array es) → resolved = .other) :
    Agrees (.mk (inferIndex reg target index static indexType) .other resolved)
      (certainIndex reg target index known) := by
  -- what the type is, once the index and the capabilities of the target have not been rejected
  have hchecked : ∀ {s}, inferIndex reg target index static indexType = .ok s →
      ∃ capability, reg.selectIndexCapability target = .ok capability ∧ indexedType static index capability = .ok s := by
    intro s hs
    obtain ⟨_, -, hs⟩ := bind_eq_ok.mp hs
    split at hs
    · cases hs
    · exact bind_eq_ok.mp hs
  have harray : ∀ {ks : List Known}, known.resolved = some (.array ks) →
      ∃ es, static.resolved = .array es ∧ AgreesList es ks := by
    intro ks hks
    have hshape := h.resolved hks
    cases hstatic : static.resolved with
    | array es =>
      rw [hstatic] at hshape
      cases hshape with
      | array hlist => exact ⟨es, rfl, hlist⟩
    | _ =>
      rw [hstatic] at hshape
      cases hshape
  unfold certainIndex
  split
  · rename_i capability hselect
    refine .mk (fun s hs => ?_) .other nofun
    obtain ⟨found, hfound, hs⟩ := hchecked hs
    obtain rfl : some capability = found := by simpa [hselect] using hfound
    split
    · trivial
    · cases hs
      rfl
  · rename_i ks hks hnot
    obtain ⟨es, hstatic, hlist⟩ := harray hks
    have hallowed : Allowed (certainSelected ks index).type (inferIndex reg target index static indexType) := by
      intro s hs
      obtain ⟨found, hfound, hs⟩ := hchecked hs
      cases found with
      | some capability => exact (hnot capability hfound).elim
      | none =>
        unfold indexedType at hs
        rw [hstatic] at hs
        exact allowed_inferArrayElement hlist index s hs
    split
    · unfold certainSelected at hallowed ⊢
      rcases hlist.literalElement index with ⟨hes, hks⟩ | ⟨e, k, hes, hks, hagrees⟩
      · obtain rfl : resolved = .other := by simpa [hes] using helement es hstatic
        rw [hks] at hallowed ⊢
        exact agrees_scalar hallowed
      · obtain rfl : resolved = e.literal := by simpa [hes] using helement es hstatic
        rw [hks] at hallowed ⊢
        exact .mk hallowed .other fun _ hshape => Option.some.inj hshape ▸ hagrees.literal
    · exact .mk (fun s hs => allows_doubted (hallowed s hs)) .other nofun
  · rename_i shape hother hks hnot
    have hnone : ∀ es, static.resolved ≠ .array es := by
      intro es hstatic
      have hshape := h.resolved hks
      rw [hstatic] at hshape
      cases hshape with
      | array hlist => exact hother _ rfl
    obtain rfl := hplain hnone
    refine agrees_scalar fun s hs => ?_
    obtain ⟨found, hfound, hs⟩ := hchecked hs
    cases found with
    | some capability => exact (hnot capability hfound).elim
    | none =>
      unfold indexedType at hs
      dsimp only at hs
      split at hs
      · rename_i es hstatic
        exact (hnone es hstatic).elim
      · obtain ⟨_, -, hs⟩ := bind_eq_ok.mp hs
        cases hs
        rfl
  · exact .mk (fun _ _ => trivial) .other nofun

theorem allowed_inferCall (name : String) (args : List (Ast D)) (argNames : List (Option String)) (h : AgreesList es ks) (hlen : es.length = args.length) :
    Allowed (certainCall reg name argNames ks) (inferCall reg name args argNames (es.map Static.type)) := by
  intro s hs
  unfold inferCall at hs
  split at hs
  · rename_i c t e condType trueType falseType hname htypes
    obtain ⟨_, -, hs⟩ := bind_eq_ok.mp hs
    split at hs
    · cases hs
    obtain ⟨a, ha, hrest⟩ := bind_eq_ok.mp hs
    obtain ⟨b, hb, hjoined⟩ := bind_eq_ok.mp hrest
    obtain ⟨x, y, z, rfl⟩ := List.length_eq_three.mp hlen
    simp only [List.map_cons, List.map_nil, List.cons.injEq] at htypes
    obtain ⟨-, rfl, rfl, -⟩ := htypes
    cases h with
    | cons _ h =>
      cases h with
      | cons ht h =>
        cases h with
        | cons he h =>
          cases h
          have hjoin := allowed_join e (ht.type a ha) (he.type b hb) s hjoined
          simp only [certainCall, hname]
          split
          · exact hjoin
          · exact allows_doubted hjoin
  · rename_i hnot
    obtain ⟨_, -, hs⟩ := bind_eq_ok.mp hs
    cases hs
    have hdeclared : (declared reg name).Allows ((reg.find name).bind (·.returnType)) := by
      unfold declared
      cases (reg.find name).bind (·.returnType) <;> rfl
    unfold certainCall
    split
    · rename_i k t e hname
      have hthree : es.length = 3 := h.forall₂.length_eq
      obtain ⟨x, y, z, rfl⟩ := List.length_eq_three.mp hthree
      obtain ⟨c, t, e, rfl⟩ := List.length_eq_three.mp (hlen.symm.trans hthree)
      exact (hnot c t e _ _ _ hname rfl rfl).elim
    · exact hdeclared

theorem length_inferList (es : List (Ast D)) : (inferList reg es).length = es.length := by
  induction es with
  | nil => rfl
  | cons e es ih => simp [inferList, ih]

mutual

theorem agrees_infer (reg : Registry D) : ∀ ast, Agrees (infer reg ast) (certain reg ast)
  | .number _ | .int64 _ | .bool _ | .string _ => agrees_scalar fun s hs => by cases hs; rfl
  | .identifier _ | .param _ | .fieldAccess _ _ | .chainAccess _ | .producerAccess _ _ _ _ =>
    agrees_scalar fun s hs => by cases hs; rfl
  | .array es => by
    have hes := agrees_inferList reg es
    exact .mk (fun s hs => by cases hs; rfl) (.array hes) fun _ hshape => Option.some.inj hshape ▸ .array hes
  | .record names values => by
    have hvalues := agrees_inferList reg values
    refine .mk (fun s hs => ?_) (.record names hvalues) fun _ hshape => Option.some.inj hshape ▸ .record names hvalues
    obtain ⟨_, -, hs⟩ := bind_eq_ok.mp hs
    cases hs
    rfl
  | .fieldOf base field => agrees_scalar (allowed_inferField (agrees_infer reg base) base field)
  | .binary op l r => by
    refine agrees_scalar fun s hs => ?_
    obtain ⟨lt, hl, hs⟩ := bind_eq_ok.mp hs
    obtain ⟨rt, hr, hs⟩ := bind_eq_ok.mp hs
    exact allowed_inferBinary l r ((agrees_infer reg l).type lt hl) ((agrees_infer reg r).type rt hr) s hs
  | .unary op a => by
    refine agrees_scalar fun s hs => ?_
    obtain ⟨type, ha, hs⟩ := bind_eq_ok.mp hs
    have htype := (agrees_infer reg a).type type ha
    cases op with
    | not =>
      dsimp only at hs
      split at hs <;> cases hs
      rfl
    | minus =>
      dsimp only at hs
      unfold certainUnary
      dsimp only
      split
      · split at hs <;> cases hs
        rfl
      · trivial
  | .call name args argNames =>
    agrees_scalar (allowed_inferCall name args argNames (agrees_inferList reg args) (length_inferList args))
  | .index target i => by
    refine agrees_index (agrees_infer reg target) _ (fun es hes => ?_) fun hnone => ?_
    · simp only [hes]
    · split
      · rename_i es hes
        exact (hnone es hes).elim
      · rfl
  | .ternary c t e => by
    refine agrees_scalar fun s hs => ?_
    obtain ⟨type, -, hs⟩ := bind_eq_ok.mp hs
    split at hs
    · cases hs
    · obtain ⟨a, ha, hs⟩ := bind_eq_ok.mp hs
      obtain ⟨b, hb, hs⟩ := bind_eq_ok.mp hs
      exact allowed_join e ((agrees_infer reg t).type a ha) ((agrees_infer reg e).type b hb) s hs

theorem agrees_inferList (reg : Registry D) : ∀ es, AgreesList (inferList reg es) (certainList reg es)
  | [] => .nil
  | e :: es => .cons (agrees_infer reg e) (agrees_inferList reg es)

end

end Cxpr.Typecheck
