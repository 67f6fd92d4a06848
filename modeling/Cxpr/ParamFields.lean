import Cxpr.Redefinition

/-! The fields that a registry records for the parameters of defined functions (`src/registry/define.c`), and what the
    functions read. -/

namespace Cxpr
variable {D U : Type}

/-! ### Reading a field -/

inductive Use where
  | field (name : String)
  | arg (function : String) (place : Nat)
  deriving DecidableEq

def denotes : Ast D → List String
  | .identifier name => [name]
  | .ternary _ t e => denotes t ++ denotes e
  | _ => []

def Slot.bodies (s : Slot D U) : List (Ast D) := s.definedBody.toList ++ s.definedReturnFields.map (·.2)

namespace Table

def boundUses (t : Table D U) (fits : Nat → Bool) (function : String) (args : List (Ast D))
    (argNames : List (Option String)) : List (String × Use) :=
  (t.find function).elim [] fun s =>
    if fits s.definedParamNames.length then
      ((callBindArgs s.entry args argNames).toOption.getD []).zipIdx.flatMap fun x =>
        (denotes x.1).map fun name => (name, .arg function x.2)
    else []

def baseUses (t : Table D U) (field : String) : Ast D → List (String × Use)
  | .call function args argNames => t.boundUses (· ≤ args.length) function args argNames
  | base => (denotes base).map fun name => (name, .field field)

mutual

def uses (t : Table D U) : Ast D → List (String × Use)
  | .fieldAccess object field => [(object, .field field)]
  | .chainAccess (object :: field :: _) => [(object, .field field)]
  | .fieldOf base field => t.baseUses field base ++ t.uses base
  | .array elements => t.usesOf elements
  | .record _ values => t.usesOf values
  | .call function args argNames => t.boundUses (· == args.length) function args argNames ++ t.usesOf args
  | .producerAccess function args argNames _ =>
    t.boundUses (· ≤ args.length) function args argNames ++ t.usesOf args
  | .binary _ l r => t.uses l ++ t.uses r
  | .unary _ a => t.uses a
  | .index target i => t.uses target ++ t.uses i
  | .ternary c a b => t.uses c ++ t.uses a ++ t.uses b
  | _ => []

def usesOf (t : Table D U) : List (Ast D) → List (String × Use)
  | [] => []
  | a :: as => t.uses a ++ t.usesOf as

end

/-- Expressions read a field of a name, themselves or in a defined function that they give it to. -/
inductive Reads (t : Table D U) : List (Ast D) → String → String → Prop
  | field {bodies : List (Ast D)} {body : Ast D} {p f : String} :
    body ∈ bodies → (p, .field f) ∈ t.uses body → t.Reads bodies p f
  | arg {bodies : List (Ast D)} {body : Ast D} {p f function q : String} {place : Nat} {s : Slot D U} :
    body ∈ bodies → (p, .arg function place) ∈ t.uses body → t.find function = some s →
    s.definedParamNames[place]? = some q → t.Reads s.bodies q f → t.Reads bodies p f

/-- For each parameter of a function the registry has the fields that the function reads of it. -/
def Exact (t : Table D U) : Prop :=
  ∀ n s, t.find n = some s → ∀ i p, s.definedParamNames[i]? = some p →
    ∀ f, f ∈ s.definedParamFields.getD i [] ↔ t.Reads s.bodies p f

end Table

mutual

def accesses : Ast D → List (String × String)
  | .fieldAccess object field => [(object, field)]
  | .fieldOf base _ => accesses base
  | .binary _ l r => accesses l ++ accesses r
  | .unary _ a => accesses a
  | .index t i => accesses t ++ accesses i
  | .call _ args _ => accessesOf args
  | .ternary c t e => accesses c ++ accesses t ++ accesses e
  | _ => []

def accessesOf : List (Ast D) → List (String × String)
  | [] => []
  | a :: as => accesses a ++ accessesOf as

end

mutual

/-- The calls that `collect_transitive_fields_in_ast` comes to. -/
def calls : Ast D → List (String × List (Ast D))
  | .call function args _ => (function, args) :: callsOf args
  | .binary _ l r => calls l ++ calls r
  | .unary _ a => calls a
  | .index t i => calls t ++ calls i
  | .ternary c t e => calls c ++ calls t ++ calls e
  | _ => []

def callsOf : List (Ast D) → List (String × List (Ast D))
  | [] => []
  | a :: as => calls a ++ callsOf as

end

/-- Expressions read a field of a name where the collectors look: at a field access they come to, or in a call they come
    to, at the place of a parameter of which the function reads the field. -/
def Table.Sees (t : Table D U) (bodies : List (Ast D)) (p f : String) : Prop :=
  ∃ body ∈ bodies, (p, f) ∈ accesses body ∨
    ∃ c ∈ calls body, ∃ s, t.find c.1 = some s ∧ s.definedParamNames.length = c.2.length ∧
      ∃ (place : Nat) (q : String), c.2[place]? = some (.identifier p) ∧ s.definedParamNames[place]? = some q ∧ t.Reads s.bodies q f

/-! ### What the collectors find -/

structure Extends {α : Type} (step : List (List String) → α → List (List String)) (adds : α → Nat → String → Prop) : Prop where
  length : ∀ sets x, (step sets x).length = sets.length
  mem : ∀ sets x i f, i < sets.length → (f ∈ (step sets x).getD i [] ↔ f ∈ sets.getD i [] ∨ adds x i f)

namespace Extends
variable {α β : Type} {step step' : List (List String) → α → List (List String)} {adds adds' : α → Nat → String → Prop}

theorem foldl (h : Extends step adds) :
    Extends (fun sets (xs : List α) => xs.foldl step sets) fun xs i f => ∃ x ∈ xs, adds x i f := by
  constructor
  · intro sets xs
    induction xs generalizing sets with
    | nil => rfl
    | cons x xs ih => exact (ih (step sets x)).trans (h.length sets x)
  · intro sets xs i f hi
    induction xs generalizing sets with
    | nil => simp
    | cons x xs ih =>
      have hi' : i < (step sets x).length := (h.length sets x).symm ▸ hi
      rw [List.foldl_cons, ih (step sets x) hi', h.mem sets x i f hi, or_assoc, List.exists_mem_cons_iff]

theorem comap (h : Extends step adds) (g : β → α) : Extends (fun sets x => step sets (g x)) fun x => adds (g x) :=
  ⟨fun sets x => h.length sets (g x), fun sets x => h.mem sets (g x)⟩

theorem then_ (h : Extends step adds) (h' : Extends step' adds') :
    Extends (fun sets x => step' (step sets x) x) fun x i f => adds x i f ∨ adds' x i f := by
  constructor
  · intro sets x
    exact (h'.length (step sets x) x).trans (h.length sets x)
  · intro sets x i f hi
    have hi' : i < (step sets x).length := (h.length sets x).symm ▸ hi
    rw [h'.mem (step sets x) x i f hi', h.mem sets x i f hi, or_assoc]

end Extends

theorem extends_addField (j : Nat) : Extends (addField j) fun g i f => j = i ∧ g = f := by
  constructor
  · intro sets g
    exact List.length_modify ..
  · intro sets g i f hi
    rw [addField, List.getD_eq_getElem?_getD, List.getD_eq_getElem?_getD, List.getElem?_modify, List.getElem?_eq_getElem hi]
    by_cases hj : j = i
    · by_cases hg : g ∈ sets[i]
      · have hold : g = f → f ∈ sets[i] := fun heq => heq ▸ hg
        simpa [hg, hj] using hold
      · simp [hg, hj, eq_comm]
    · simp [hj]

def addAccess (params : List String) (sets : List (List String)) (x : String × String) : List (List String) :=
  match params.findIdx? (· == x.1) with
  | some i => addField i sets x.2
  | none => sets

theorem extends_addAccess (params : List String) :
    Extends (addAccess params) fun x i f => params.findIdx? (· == x.1) = some i ∧ x.2 = f := by
  constructor
  · intro sets x
    unfold addAccess
    split
    · rename_i j _
      exact (extends_addField j).length sets x.2
    · rfl
  · intro sets x i f hi
    unfold addAccess
    split
    · rename_i j hj
      rw [(extends_addField j).mem sets x.2 i f hi, hj, Option.some_inj]
    · rename_i hnone
      simp [hnone]

theorem extends_passFields (params : List String) :
    Extends (passFields (D := D) params) fun x i f =>
      ∃ p, x.1 = .identifier p ∧ params.findIdx? (· == p) = some i ∧ f ∈ x.2 := by
  constructor
  · intro sets x
    unfold passFields
    split
    · split
      · rename_i j _
        exact (extends_addField j).foldl.length sets x.2
      · rfl
    · rfl
  · intro sets x i f hi
    unfold passFields
    split
    · rename_i p hp
      split
      · rename_i j hj
        have hstep := (extends_addField j).foldl.mem sets x.2 i f hi
        simp only [exists_eq_right_right] at hstep
        rw [hstep]
        simp [hp, hj, and_comm]
      · rename_i hnone
        simp [hp, hnone]
    · rename_i hother
      refine (or_iff_left ?_).symm
      rintro ⟨p, hp, -⟩
      exact hother p hp

mutual

theorem collectFields_eq (params : List String) :
    ∀ (ast : Ast D) sets, collectFields params ast sets = (accesses ast).foldl (addAccess params) sets
  | .fieldOf base _, sets => by
    rw [collectFields, accesses, collectFields_eq params base]
  | .binary _ l r, sets => by
    rw [collectFields, accesses, List.foldl_append, collectFields_eq params l, collectFields_eq params r]
  | .unary _ a, sets => by
    rw [collectFields, accesses, collectFields_eq params a]
  | .index t i, sets => by
    rw [collectFields, accesses, List.foldl_append, collectFields_eq params t, collectFields_eq params i]
  | .call _ args _, sets => by
    rw [collectFields, accesses, collectFieldsList_eq params args]
  | .ternary c t e, sets => by
    rw [collectFields, accesses, List.foldl_append, List.foldl_append, collectFields_eq params c, collectFields_eq params t,
      collectFields_eq params e]
  | .fieldAccess _ _, _ => by
    rw [collectFields, accesses]
    rfl
  | .number _, _ | .int64 _, _ | .bool _, _ | .string _, _ | .array _, _ | .record _ _, _ | .identifier _, _
  | .param _, _ | .chainAccess _, _ | .producerAccess _ _ _ _, _ => by
    simp only [collectFields, accesses, List.foldl_nil]

theorem collectFieldsList_eq (params : List String) :
    ∀ (as : List (Ast D)) sets, collectFieldsList params as sets = (accessesOf as).foldl (addAccess params) sets
  | [], _ => rfl
  | a :: as, sets => by
    rw [collectFieldsList, accessesOf, List.foldl_append, collectFields_eq params a, collectFieldsList_eq params as]

end

def passCall (callee : String → Nat → List (List String)) (params : List String) (sets : List (List String))
    (c : String × List (Ast D)) : List (List String) :=
  (c.2.zip (callee c.1 c.2.length)).foldl (passFields params) sets

mutual

theorem collectTransitiveFields_eq (callee : String → Nat → List (List String)) (params : List String) :
    ∀ (ast : Ast D) sets, collectTransitiveFields callee params ast sets = (calls ast).foldl (passCall callee params) sets
  | .call _ args _, sets => by
    rw [collectTransitiveFields, calls, List.foldl_cons, collectTransitiveFieldsList_eq callee params args, passCall]
  | .binary _ l r, sets => by
    rw [collectTransitiveFields, calls, List.foldl_append, collectTransitiveFields_eq callee params l,
      collectTransitiveFields_eq callee params r]
  | .unary _ a, sets => by
    rw [collectTransitiveFields, calls, collectTransitiveFields_eq callee params a]
  | .index t i, sets => by
    rw [collectTransitiveFields, calls, List.foldl_append, collectTransitiveFields_eq callee params t,
      collectTransitiveFields_eq callee params i]
  | .ternary c t e, sets => by
    rw [collectTransitiveFields, calls, List.foldl_append, List.foldl_append, collectTransitiveFields_eq callee params c,
      collectTransitiveFields_eq callee params t, collectTransitiveFields_eq callee params e]
  | .number _, _ | .int64 _, _ | .bool _, _ | .string _, _ | .array _, _ | .record _ _, _ | .identifier _, _
  | .param _, _ | .fieldAccess _ _, _ | .fieldOf _ _, _ | .chainAccess _, _ | .producerAccess _ _ _ _, _ => by
    simp only [collectTransitiveFields, calls, List.foldl_nil]

theorem collectTransitiveFieldsList_eq (callee : String → Nat → List (List String)) (params : List String) :
    ∀ (as : List (Ast D)) sets,
      collectTransitiveFieldsList callee params as sets = (callsOf as).foldl (passCall callee params) sets
  | [], _ => rfl
  | a :: as, sets => by
    rw [collectTransitiveFieldsList, callsOf, List.foldl_append, collectTransitiveFields_eq callee params a,
      collectTransitiveFieldsList_eq callee params as]

end

variable {t : Table D U} {r : Registration D U}

theorem mem_paramFields {params : List String} {bodies : List (Ast D)} {i : Nat} (hi : i < params.length)
    (f : String) :
    f ∈ (t.paramFields params bodies).getD i [] ↔ ∃ body ∈ bodies,
      (∃ x ∈ accesses body, params.findIdx? (· == x.1) = some i ∧ x.2 = f) ∨
      ∃ c ∈ calls body, ∃ x ∈ c.2.zip (t.calleeFields c.1 c.2.length), ∃ p, x.1 = .identifier p ∧
        params.findIdx? (· == p) = some i ∧ f ∈ x.2 := by
  have hcalls := ((extends_passFields (D := D) params).foldl.comap
    fun c : String × List (Ast D) => c.2.zip (t.calleeFields c.1 c.2.length)).foldl.comap (calls (D := D))
  have hbodies := (((extends_addAccess params).foldl.comap (accesses (D := D))).then_ hcalls).foldl
  have hmem := hbodies.mem (params.map fun _ => []) bodies i f (by simpa using hi)
  have hempty : f ∉ (params.map fun _ => ([] : List String)).getD i [] := by
    rw [List.getD_eq_getElem?_getD, List.getElem?_map]
    cases params[i]? <;> simp
  have hfold : t.paramFields params bodies = bodies.foldl
      (fun sets body => (calls body).foldl (passCall t.calleeFields params) ((accesses body).foldl (addAccess params) sets))
      (params.map fun _ => []) := by
    unfold Table.paramFields
    simp only [collectFields_eq, collectTransitiveFields_eq]
  rw [hfold]
  exact hmem.trans (or_iff_right hempty)

theorem mem_zip_iff {α β : Type} {l : List α} {l' : List β} {x : α × β} :
    x ∈ l.zip l' ↔ ∃ place : Nat, l[place]? = some x.1 ∧ l'[place]? = some x.2 := by
  rw [List.mem_iff_getElem?]
  simp only [List.getElem?_zip_eq_some]

theorem mem_paramFields_iff_sees (h : t.Exact) {params : List String} {bodies : List (Ast D)} {i : Nat}
    {p : String} (hp : params[i]? = some p) (f : String) :
    f ∈ (t.paramFields params bodies).getD i [] ↔ params.findIdx? (· == p) = some i ∧ t.Sees bodies p f := by
  have hi : i < params.length := (List.getElem?_eq_some_iff.mp hp).1
  have hname : ∀ q, params.findIdx? (· == q) = some i → q = p := by
    intro q hq
    obtain ⟨_, hfound, -⟩ := List.findIdx?_eq_some_iff_getElem.mp hq
    have hget : params[i] = p := (List.getElem?_eq_some_iff.mp hp).2
    rw [hget] at hfound
    exact (eq_of_beq hfound).symm
  rw [mem_paramFields hi]
  constructor
  · rintro ⟨body, hbody, ⟨x, hx, hfirst, rfl⟩ | ⟨c, hc, x, hx, q, hq, hfirst, hf⟩⟩
    · obtain rfl := hname x.1 hfirst
      exact ⟨hfirst, body, hbody, .inl hx⟩
    · obtain rfl := hname q hfirst
      obtain ⟨place, harg, hfields⟩ := mem_zip_iff.mp hx
      unfold Table.calleeFields at hfields
      split at hfields
      · rename_i s hs
        split at hfields
        · rename_i hargc
          have hplace : place < s.definedParamNames.length := hargc ▸ (List.getElem?_eq_some_iff.mp harg).1
          have hparam := List.getElem?_eq_getElem hplace
          have hreads : t.Reads s.bodies s.definedParamNames[place] f := by
            rw [← h c.1 s hs place _ hparam f, List.getD_eq_getElem?_getD, hfields]
            exact hf
          exact ⟨hfirst, body, hbody, .inr ⟨c, hc, s, hs, hargc, place, _, hq ▸ harg, hparam, hreads⟩⟩
        · cases hfields
      · cases hfields
  · rintro ⟨hfirst, body, hbody, haccess | ⟨c, hc, s, hs, hargc, place, q, harg, hparam, hreads⟩⟩
    · exact ⟨body, hbody, .inl ⟨(p, f), haccess, hfirst, rfl⟩⟩
    · have hrecorded := (h c.1 s hs place q hparam f).mpr hreads
      rw [List.getD_eq_getElem?_getD] at hrecorded
      cases hfields : s.definedParamFields[place]? with
      | none =>
        rw [hfields] at hrecorded
        cases hrecorded
      | some fields =>
        rw [hfields] at hrecorded
        have hcallee : t.calleeFields c.1 c.2.length = s.definedParamFields := by
          simp only [Table.calleeFields, hs, if_pos hargc]
        refine ⟨body, hbody, .inr ⟨c, hc, (.identifier p, fields), ?_, p, rfl, hfirst, hrecorded⟩⟩
        exact mem_zip_iff.mpr ⟨place, harg, hcallee ▸ hfields⟩

def Registration.definition : Registration D U → Option (List String × List (Ast D))
  | .defineFn _ params body => some (params, [body])
  | .defineRecordFn _ params fields => some (params, fields.map (·.2))
  | _ => none

variable [Double D]

theorem Registration.result_definition {d : List String × List (Ast D)}
    (h : r.definition = some d) : (r.result t).definedParamNames = d.1 ∧ (r.result t).bodies = d.2 ∧
      (r.result t).definedParamFields = t.paramFields d.1 d.2 := by
  cases r with
  | defineFn name params body =>
    obtain rfl := Option.some.inj h
    unfold Registration.result
    split <;> exact ⟨rfl, rfl, rfl⟩
  | defineRecordFn name params fields =>
    obtain rfl := Option.some.inj h
    unfold Registration.result
    split <;> exact ⟨rfl, rfl, rfl⟩
  | _ => cases h

theorem Registration.result_other (h : r.definition = none) :
    (r.result t).definedParamNames = [] ∨ ∃ s, t.find r.name = some s ∧
      (r.result t).definedParamNames = s.definedParamNames ∧ (r.result t).bodies = s.bodies ∧
      (r.result t).definedParamFields = s.definedParamFields := by
  unfold Registration.result
  cases hfind : t.find r.name with
  | none =>
    left
    cases r with
    | defineFn | defineRecordFn => cases h
    | _ => rfl
  | some s =>
    cases r with
    | defineFn | defineRecordFn => cases h
    | astHandler => exact .inr ⟨s, rfl, rfl, rfl, rfl⟩
    | struct_ name func minArgs maxArgs fields userdata =>
      refine .inr ⟨s, rfl, ?_⟩
      have hfree : s.freeStructFields.definedParamNames = s.definedParamNames ∧ s.freeStructFields.bodies = s.bodies ∧
          s.freeStructFields.definedParamFields = s.definedParamFields := by
        unfold Slot.freeStructFields
        split <;> exact ⟨rfl, rfl, rfl⟩
      simp only [Registration.update]
      split <;> exact hfree
    | _ => exact .inl rfl

/-- The collectors look where a definition reads, and a registration leaves alone what other functions read. -/
structure Table.Foreseen (t : Table D U) (r : Registration D U) : Prop where
  own : r.accepted = true → ∀ params bodies, r.definition = some (params, bodies) → ∀ i p, params[i]? = some p →
    ∀ f, (t.register r).Reads bodies p f ↔ params.findIdx? (· == p) = some i ∧ t.Sees bodies p f
  others : ∀ n s, (t.register r).find n = some s → (n = r.name → r.definition = none) → ∀ p ∈ s.definedParamNames,
    ∀ f, (t.register r).Reads s.bodies p f ↔ t.Reads s.bodies p f

theorem mem_fields_of_other (hexact : t.Exact) {n : String} {s : Slot D U}
    (hfind : (t.register r).find n = some s) (hother : n = r.name → r.definition = none) {i : Nat} {p : String}
    (hp : s.definedParamNames[i]? = some p) (f : String) :
    f ∈ s.definedParamFields.getD i [] ↔ t.Reads s.bodies p f := by
  rw [Table.find_register] at hfind
  split at hfind
  · rename_i hown
    obtain rfl := Option.some.inj hfind
    rcases Registration.result_other (t := t) (hother hown.2) with hnil | ⟨old, hold, hnames, hbodies, hfields⟩
    · rw [hnil] at hp
      cases hp
    · rw [hnames] at hp
      rw [hbodies, hfields]
      exact hexact _ old hold i p hp f
  · exact hexact n s hfind i p hp f

theorem register_exact_iff (hexact : t.Exact) (r : Registration D U) :
    (t.register r).Exact ↔ t.Foreseen r := by
  constructor
  · intro h
    constructor
    · intro haccepted params bodies hdef i p hp f
      obtain ⟨hnames, hbodies, hfields⟩ := Registration.result_definition (t := t) hdef
      have hfind : (t.register r).find r.name = some (r.result t) := by
        rw [Table.find_register, if_pos ⟨haccepted, rfl⟩]
      have hmem := h r.name _ hfind i p (hnames ▸ hp) f
      rw [hfields, hbodies] at hmem
      exact hmem.symm.trans (mem_paramFields_iff_sees hexact hp f)
    · intro n s hfind hother p hp f
      obtain ⟨i, hi⟩ := List.mem_iff_getElem?.mp hp
      exact (h n s hfind i p hi f).symm.trans (mem_fields_of_other hexact hfind hother hi f)
  · intro h n s hfind i p hp f
    by_cases hother : n = r.name → r.definition = none
    · exact (mem_fields_of_other hexact hfind hother hp f).trans
        (h.others n s hfind hother p (List.mem_iff_getElem?.mpr ⟨i, hp⟩) f).symm
    · obtain ⟨hn, hdef⟩ := Classical.not_imp.mp hother
      obtain ⟨⟨params, bodies⟩, hdef⟩ := Option.ne_none_iff_exists'.mp hdef
      by_cases haccepted : r.accepted = true
      · obtain ⟨hnames, hbodies, hfields⟩ := Registration.result_definition (t := t) hdef
        rw [Table.find_register, if_pos ⟨haccepted, hn⟩] at hfind
        obtain rfl := Option.some.inj hfind
        rw [hnames] at hp
        rw [hfields, hbodies, mem_paramFields_iff_sees hexact hp f]
        exact (h.own haccepted params bodies hdef i p hp f).symm
      · have hsame : t.register r = t := if_neg haccepted
        rw [hsame] at hfind ⊢
        exact hexact n s hfind i p hp f

def namedRegistrations : List (Registration Int Unit) :=
  [.defineFn "g" ["a", "b"] (.binary .plus (.fieldAccess "a" "x") (.identifier "b")),
    .defineFn "h" ["p", "q"] (.call "g" [.identifier "p", .identifier "q"] [some "b", some "a"])]

end Cxpr
