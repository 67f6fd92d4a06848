import Mathlib.Data.List.Induction
import Cxpr.Registrations

/-! Registering a name again. What a registration that replaces leaves is what it makes of a fresh name, so a registry
    answers like one that never had the registrations replaced later. -/

namespace Cxpr
variable {D U : Type}

def passesParam (params : List String) : Ast D → Bool
  | .identifier name => params.contains name
  | _ => false

mutual

/-- The functions that get a parameter, where `collect_transitive_fields_in_ast` looks for them. -/
def paramCalls (params : List String) : Ast D → List String
  | .call name args _ => (if args.any (passesParam params) then [name] else []) ++ paramCallsList params args
  | .binary _ l r => paramCalls params l ++ paramCalls params r
  | .unary _ a => paramCalls params a
  | .index t i => paramCalls params t ++ paramCalls params i
  | .ternary c t e => paramCalls params c ++ paramCalls params t ++ paramCalls params e
  | _ => []

def paramCallsList (params : List String) : List (Ast D) → List String
  | [] => []
  | a :: as => paramCalls params a ++ paramCallsList params as

end

def SameFields (fields fields' : List (List String)) : Prop :=
  fields = fields' ∨ (∀ fs ∈ fields, fs = []) ∧ ∀ fs ∈ fields', fs = []

variable {params : List String} {t t' : Table D U} {s : Slot D U} {r : Registration D U}
variable {rs : List (Registration D U)} {n : String}

theorem passFields_of_not_passesParam {a : Ast D} (h : passesParam params a = false)
    (sets : List (List String)) (fields : List String) : passFields params sets (a, fields) = sets := by
  cases a with
  | identifier name =>
    have hfind : params.findIdx? (· == name) = none := by
      rw [List.findIdx?_eq_none_iff]
      intro x hx
      have hne : x ≠ name := by
        rintro rfl
        simp [passesParam, hx] at h
      simpa using hne
    simp only [passFields, hfind]
  | _ => rfl

theorem passFields_nil (params : List String) (sets : List (List String)) (a : Ast D) : passFields params sets (a, []) = sets := by
  cases a with
  | identifier name =>
    simp only [passFields, List.foldl_nil]
    split <;> rfl
  | _ => rfl

theorem foldl_passFields_of_none {args : List (Ast D)} (h : args.any (passesParam params) = false)
    (fields : List (List String)) (sets : List (List String)) : (args.zip fields).foldl (passFields params) sets = sets := by
  induction args generalizing fields with
  | nil => rfl
  | cons a as ih =>
    obtain ⟨ha, has⟩ : passesParam params a = false ∧ as.any (passesParam params) = false := by
      simpa only [List.any_cons, Bool.or_eq_false_iff] using h
    cases fields with
    | nil => rfl
    | cons fs fields => rw [List.zip_cons_cons, List.foldl_cons, passFields_of_not_passesParam ha, ih has]

theorem foldl_passFields_of_empty (params : List String) (args : List (Ast D)) {fields : List (List String)}
    (h : ∀ fs ∈ fields, fs = []) (sets : List (List String)) : (args.zip fields).foldl (passFields params) sets = sets := by
  induction args generalizing fields with
  | nil => rfl
  | cons a as ih =>
    cases fields with
    | nil => rfl
    | cons fs fields =>
      have hfs : fs = [] := h fs (by simp)
      have hrest := ih fun gs hgs => h gs (List.mem_cons_of_mem _ hgs)
      rw [List.zip_cons_cons, List.foldl_cons, hfs, passFields_nil, hrest]

mutual

theorem collectTransitiveFields_congr {callee callee' : String → Nat → List (List String)} {params : List String} :
    ∀ (ast : Ast D), (∀ g ∈ paramCalls params ast, ∀ n, SameFields (callee g n) (callee' g n)) →
      ∀ sets, collectTransitiveFields callee params ast sets = collectTransitiveFields callee' params ast sets
  | .call name args argNames, h, sets => by
    rw [collectTransitiveFields, collectTransitiveFields]
    have hpassed : (args.zip (callee name args.length)).foldl (passFields params) sets =
        (args.zip (callee' name args.length)).foldl (passFields params) sets := by
      by_cases hany : args.any (passesParam params) = true
      · have hname : name ∈ paramCalls params (.call name args argNames) := by simp [paramCalls, hany]
        rcases h name hname args.length with heq | ⟨hempty, hempty'⟩
        · rw [heq]
        · rw [foldl_passFields_of_empty params args hempty, foldl_passFields_of_empty params args hempty']
      · have hnone : args.any (passesParam params) = false := by simpa using hany
        rw [foldl_passFields_of_none hnone, foldl_passFields_of_none hnone]
    rw [hpassed]
    exact collectTransitiveFieldsList_congr args (fun g hg => h g (by simp [paramCalls, hg])) _
  | .binary op l r, h, sets => by
    rw [collectTransitiveFields, collectTransitiveFields,
      collectTransitiveFields_congr l (fun g hg => h g (by simp [paramCalls, hg])),
      collectTransitiveFields_congr r (fun g hg => h g (by simp [paramCalls, hg]))]
  | .unary op a, h, sets => by
    rw [collectTransitiveFields, collectTransitiveFields, collectTransitiveFields_congr a (fun g hg => h g (by simp [paramCalls, hg]))]
  | .index t i, h, sets => by
    rw [collectTransitiveFields, collectTransitiveFields,
      collectTransitiveFields_congr t (fun g hg => h g (by simp [paramCalls, hg])),
      collectTransitiveFields_congr i (fun g hg => h g (by simp [paramCalls, hg]))]
  | .ternary c t e, h, sets => by
    rw [collectTransitiveFields, collectTransitiveFields,
      collectTransitiveFields_congr c (fun g hg => h g (by simp [paramCalls, hg])),
      collectTransitiveFields_congr t (fun g hg => h g (by simp [paramCalls, hg])),
      collectTransitiveFields_congr e (fun g hg => h g (by simp [paramCalls, hg]))]
  | .number _, _, _ | .int64 _, _, _ | .bool _, _, _ | .string _, _, _ | .array _, _, _ | .record _ _, _, _
  | .identifier _, _, _ | .param _, _, _ | .fieldAccess _ _, _, _ | .fieldOf _ _, _, _ | .chainAccess _, _, _
  | .producerAccess _ _ _ _, _, _ => by simp only [collectTransitiveFields]

theorem collectTransitiveFieldsList_congr {callee callee' : String → Nat → List (List String)} {params : List String} :
    ∀ (as : List (Ast D)), (∀ g ∈ paramCallsList params as, ∀ n, SameFields (callee g n) (callee' g n)) →
      ∀ sets, collectTransitiveFieldsList callee params as sets = collectTransitiveFieldsList callee' params as sets
  | [], _, _ => rfl
  | a :: as, h, sets => by
    rw [collectTransitiveFieldsList, collectTransitiveFieldsList,
      collectTransitiveFields_congr a (fun g hg => h g (by simp [paramCallsList, hg])),
      collectTransitiveFieldsList_congr as (fun g hg => h g (by simp [paramCallsList, hg]))]

end

theorem paramFields_congr {bodies : List (Ast D)}
    (h : ∀ body ∈ bodies, ∀ g ∈ paramCalls params body, ∀ n, SameFields (t.calleeFields g n) (t'.calleeFields g n)) :
    t.paramFields params bodies = t'.paramFields params bodies := by
  unfold Table.paramFields
  apply List.foldl_ext
  intro sets body hbody
  exact collectTransitiveFields_congr body (h body hbody) _

variable [Double D]

theorem Registration.counted_assign (t : Table D U) (h : s.Counted) (r : Registration D U) :
    (r.assign t s).Counted := by
  cases r with
  | fn => exact fun hnone => nomatch hnone
  | struct_ => exact fun hnone => nomatch hnone
  | _ => exact h

omit [Double D] in
theorem Slot.counted_clearOwnedEntry (h : s.Counted) : s.clearOwnedEntry.Counted := by
  have hfree := Slot.freeStructFields_eq h
  intro _
  constructor
  · show s.freeStructFields.fieldsPerArg = 0
    rw [hfree]
  · show s.freeStructFields.structArgc = 0
    rw [hfree]

theorem Registration.counted_update (t : Table D U) (h : s.Counted) (r : Registration D U) :
    (r.update t s).Counted := by
  cases r with
  | astHandler => exact h
  | struct_ => exact fun hnone => nomatch hnone
  | defineFn name params body =>
    apply Registration.counted_assign
    exact Slot.counted_clearOwnedEntry h
  | defineRecordFn name params fields => exact Registration.counted_assign t (Slot.counted_clearOwnedEntry h) _
  | _ =>
    apply Registration.counted_assign
    exact fun _ => ⟨rfl, rfl⟩

theorem registerAll_concat (rs : List (Registration D U)) (r : Registration D U) :
    registerAll (rs ++ [r]) = (registerAll rs).register r := by
  simp only [registerAll, List.foldl_append, List.foldl_cons, List.foldl_nil]

theorem counted_registerAll (rs : List (Registration D U)) :
    ∀ n s, (registerAll rs).find n = some s → s.Counted := by
  induction rs using List.reverseRecOn with
  | nil => exact fun _ _ hfind => nomatch hfind
  | append_singleton rs r ih =>
    intro n s hfind
    rw [registerAll_concat, Table.find_register] at hfind
    split at hfind
    · cases hfind
      unfold Registration.result
      split
      · exact Registration.counted_assign _ (fun _ => ⟨rfl, rfl⟩) r
      · rename_i old hold
        exact Registration.counted_update _ (ih _ old hold) r
    · exact ih n s hfind

def Registration.callees : Registration D U → List String
  | .defineFn _ params body => paramCalls params body
  | .defineRecordFn _ params fields => fields.flatMap fun f => paramCalls params f.2
  | _ => []

theorem Registration.assign_congr
    (h : ∀ g ∈ r.callees, ∀ n, SameFields (t.calleeFields g n) (t'.calleeFields g n)) (s : Slot D U) :
    r.assign t s = r.assign t' s := by
  cases r with
  | defineFn name params body =>
    have hfields : t.paramFields params [body] = t'.paramFields params [body] := by
      apply paramFields_congr
      intro b hb
      obtain rfl := List.mem_singleton.mp hb
      exact h
    simp only [Registration.assign, hfields]
  | defineRecordFn name params fields =>
    have hfields : t.paramFields params (fields.map (·.2)) = t'.paramFields params (fields.map (·.2)) := by
      apply paramFields_congr
      intro b hb g hg
      obtain ⟨f, hf, rfl⟩ := List.mem_map.mp hb
      exact h g (List.mem_flatMap.mpr ⟨f, hf, hg⟩)
    simp only [Registration.assign, hfields]
  | _ => rfl

theorem Registration.result_of_replaces
    (hcounted : ∀ n s, t.find n = some s → s.Counted) (hreplaces : r.replaces = true) (hclears : r.Clears t) :
    r.result t = r.assign t { name := r.name } := by
  unfold Registration.result
  split
  · rfl
  · rename_i s hfind
    exact Registration.update_eq_assign hfind (hcounted _ _ hfind) hreplaces hclears

theorem Registration.result_of_overlays (haccepted : r.accepted = true)
    (hoverlays : r.replaces = false) (h : t'.find r.name = t.find r.name) : r.result t' = r.result t := by
  unfold Registration.result
  rw [h]
  cases r with
  | astHandler => rfl
  | struct_ => rfl
  | _ => simp [Registration.replaces, haccepted] at hoverlays

/-! ### Registrations replaced later -/

omit [Double D] in
def replacedIn (name : String) (rs : List (Registration D U)) : Bool := rs.any fun r => r.replaces && r.name == name

omit [Double D] in
def survivors (later : List (Registration D U)) : List (Registration D U) → List (Registration D U)
  | [] => []
  | r :: rs => if replacedIn r.name (rs ++ later) then survivors later rs else r :: survivors later rs

omit [Double D] in
theorem survivors_concat (later rs : List (Registration D U)) (r : Registration D U) :
    survivors later (rs ++ [r]) = survivors (r :: later) rs ++ if replacedIn r.name later then [] else [r] := by
  induction rs with
  | nil =>
    simp only [List.nil_append, survivors]
  | cons x rs ih =>
    have happend : rs ++ [r] ++ later = rs ++ r :: later := by simp
    rw [List.cons_append, survivors, survivors, happend, ih]
    split <;> rfl

omit [Double D] in
theorem replacedIn_of_mem_survivors {later : List (Registration D U)} {x : Registration D U} (h : x ∈ survivors later rs) :
    replacedIn x.name later = false := by
  induction rs with
  | nil => cases h
  | cons r rs ih =>
    rw [survivors] at h
    split at h
    · exact ih h
    · rename_i hkept
      rcases List.mem_cons.mp h with rfl | hrest
      · simp only [replacedIn, List.any_append, Bool.or_eq_true, not_or, Bool.not_eq_true] at hkept
        exact hkept.2
      · exact ih hrest

theorem find_registerAll_of_absent (h : ∀ r ∈ rs, r.name ≠ n) :
    (registerAll rs).find n = none := by
  induction rs using List.reverseRecOn with
  | nil => rfl
  | append_singleton rs r ih =>
    have hr : n ≠ r.name := Ne.symm (h r (by simp))
    rw [registerAll_concat, Table.find_register, if_neg fun hand => hr hand.2]
    exact ih fun x hx => h x (List.mem_append_left _ hx)

theorem find_survivors_of_replacedIn {later : List (Registration D U)} (h : replacedIn n later = true) :
    (registerAll (survivors later rs)).find n = none := by
  apply find_registerAll_of_absent
  rintro r hr rfl
  rw [replacedIn_of_mem_survivors hr] at h
  cases h

/-- What a registration that stays needs of the ones before and after it: a definition finds no AST function or producer
    under its name, and a function that it passes a parameter to has no fields of parameters yet if it is registered anew. -/
structure Registration.Settled (pre : List (Registration D U)) (r : Registration D U) (post : List (Registration D U)) : Prop where
  clears : r.Clears (registerAll pre)
  callees : ∀ g ∈ r.callees, replacedIn g (r :: post) = true →
    ∀ s, (registerAll pre).find g = some s → ∀ fields ∈ s.definedParamFields, fields = []

def Orderly (rs : List (Registration D U)) : Prop :=
  ∀ pre r post, rs = pre ++ r :: post → r.accepted = true → replacedIn r.name post = false → r.Settled pre post

omit [Double D] in
theorem sameFields_calleeFields {g : String}
    (h : t'.find g = t.find g ∨ t'.find g = none ∧ ∀ s, t.find g = some s → ∀ fields ∈ s.definedParamFields, fields = []) (n : Nat) :
    SameFields (t.calleeFields g n) (t'.calleeFields g n) := by
  unfold Table.calleeFields
  rcases h with hsame | ⟨hnone, hempty⟩
  · exact .inl (by rw [hsame])
  · refine .inr ⟨?_, ?_⟩
    · split
      · rename_i s hfind
        split
        · exact hempty s hfind
        · exact fun fs hfs => nomatch hfs
      · exact fun fs hfs => nomatch hfs
    · rw [hnone]
      exact fun fs hfs => nomatch hfs

omit [Double D] in
theorem replacedIn_cons (n : String) (r : Registration D U) (rs : List (Registration D U)) :
    replacedIn n (r :: rs) = (r.replaces && r.name == n || replacedIn n rs) := rfl

omit [Double D] in
theorem replacedIn_cons_of_ne (hne : n ≠ r.name)
    (h : replacedIn n rs = false) : replacedIn n (r :: rs) = false := by
  rw [replacedIn_cons, h, beq_false_of_ne hne.symm, Bool.and_false, Bool.or_false]

theorem Registration.Settled.result_eq {pre post : List (Registration D U)} (h : r.Settled pre post)
    (haccepted : r.accepted = true) (hlast : replacedIn r.name post = false)
    (ih : ∀ n, replacedIn n (r :: post) = false →
      (registerAll (survivors (r :: post) pre)).find n = (registerAll pre).find n) :
    r.result (registerAll (survivors (r :: post) pre)) = r.result (registerAll pre) := by
  cases hreplaces : r.replaces with
  | false =>
    apply Registration.result_of_overlays haccepted hreplaces
    apply ih
    rw [replacedIn_cons, hreplaces, hlast, Bool.false_and, Bool.or_false]
  | true =>
    have hgone : (registerAll (survivors (r :: post) pre)).find r.name = none := by
      apply find_survivors_of_replacedIn
      rw [replacedIn_cons, hreplaces, beq_self_eq_true, Bool.and_self, Bool.true_or]
    have hfresh : r.result (registerAll (survivors (r :: post) pre)) =
        r.assign (registerAll (survivors (r :: post) pre)) { name := r.name } := by
      unfold Registration.result
      rw [hgone]
    have hassign : r.assign (registerAll pre) { name := r.name } =
        r.assign (registerAll (survivors (r :: post) pre)) { name := r.name } := by
      apply Registration.assign_congr
      intro g hg
      apply sameFields_calleeFields
      cases hlater : replacedIn g (r :: post) with
      | true => exact .inr ⟨find_survivors_of_replacedIn hlater, h.callees g hg hlater⟩
      | false => exact .inl (ih g hlater)
    rw [hfresh, ← hassign, Registration.result_of_replaces (counted_registerAll pre) hreplaces h.clears]

theorem find_survivors {pre : List (Registration D U)} : ∀ {post : List (Registration D U)}, Orderly (pre ++ post) →
    ∀ n, replacedIn n post = false → (registerAll (survivors post pre)).find n = (registerAll pre).find n := by
  induction pre using List.reverseRecOn with
  | nil => exact fun _ _ _ => rfl
  | append_singleton pre r ih =>
    intro post horderly n hn
    have hsplit : pre ++ [r] ++ post = pre ++ r :: post := by simp
    rw [hsplit] at horderly
    have hbefore := ih horderly
    rw [survivors_concat, registerAll_concat, Table.find_register]
    by_cases haccepted : r.accepted = true
    · cases hlast : replacedIn r.name post with
      | true =>
        have hne : n ≠ r.name := by
          rintro rfl
          rw [hlast] at hn
          cases hn
        rw [if_pos rfl, List.append_nil, if_neg fun hand => hne hand.2]
        exact hbefore n (replacedIn_cons_of_ne hne hn)
      | false =>
        rw [if_neg Bool.false_ne_true, registerAll_concat, Table.find_register]
        by_cases hname : n = r.name
        · have hsettled := horderly pre r post rfl haccepted hlast
          rw [if_pos ⟨haccepted, hname⟩, if_pos ⟨haccepted, hname⟩, hsettled.result_eq haccepted hlast hbefore]
        · rw [if_neg fun hand => hname hand.2, if_neg fun hand => hname hand.2]
          exact hbefore n (replacedIn_cons_of_ne hname hn)
    · have hreplaces : r.replaces = false := by simp [Registration.replaces, haccepted]
      have hn' : replacedIn n (r :: post) = false := by
        rw [replacedIn_cons, hreplaces, hn, Bool.false_and, Bool.or_false]
      have hrefused : ¬ (r.accepted = true ∧ n = r.name) := fun hand => haccepted hand.1
      rw [if_neg hrefused]
      split
      · rw [List.append_nil]
        exact hbefore n hn'
      · rw [registerAll_concat, Table.find_register, if_neg hrefused]
        exact hbefore n hn'

omit [Double D] in
theorem alike_registry (base : Registry D) (h : ∀ n, t'.find n = t.find n) :
    (t.registry base).Alike (t'.registry base) := by
  have hfind : ∀ (t : Table D U) n, (t.registry base).find n = (t.find n).map Slot.entry := by
    intro t n
    unfold Registry.find Table.registry Table.find
    rw [List.find?_map]
    rfl
  refine ⟨?_, rfl, rfl, rfl⟩
  intro n
  rw [hfind, hfind, h]

/-- Every expression evaluates as if the registrations replaced later had never been made. -/
theorem evalAst_survivors (base : Registry D) {rs : List (Registration D U)} (h : Orderly rs) (depth : Nat) (ast : Ast D)
    (ctx : Context D) :
    Eval.evalAst ((registerAll rs).registry base) depth ast ctx =
      Eval.evalAst ((registerAll (survivors [] rs)).registry base) depth ast ctx := by
  have horderly : Orderly (rs ++ []) := by rwa [List.append_nil]
  have hfind : ∀ n, (registerAll rs).find n = (registerAll (survivors [] rs)).find n := fun n =>
    (find_survivors horderly n rfl).symm
  rw [Eval.evalAst_alike (alike_registry base hfind)]

/-- `f` is registered again after `h(x) => f(x)`. -/
def regrown : List (Registration Int Unit) :=
  [.numeric "f" (fun args _ => args.sum) 1 1 none, .defineFn "h" ["x"] (.call "f" [.identifier "x"] [none]),
    .unary "f" (fun x => x + x) none]

theorem orderly_regrown : Orderly regrown := by
  intro pre r post heq _ hlast
  rcases pre with _ | ⟨a, _ | ⟨b, _ | ⟨c, pre⟩⟩⟩
  · simp only [regrown, List.nil_append, List.cons.injEq] at heq
    obtain ⟨rfl, rfl⟩ := heq
    simp [replacedIn, Registration.replaces, Registration.accepted, Registration.name] at hlast
  · simp only [regrown, List.cons_append, List.nil_append, List.cons.injEq] at heq
    obtain ⟨rfl, rfl, rfl⟩ := heq
    refine ⟨?_, ?_⟩
    · intro s hfind
      cases hfind
    · intro g hg _ s hfind
      obtain rfl : g = "f" := by simpa [Registration.callees, paramCalls, paramCallsList, passesParam] using hg
      cases hfind
      exact fun fields hfields => by cases hfields
  · simp only [regrown, List.cons_append, List.nil_append, List.cons.injEq] at heq
    obtain ⟨rfl, rfl, rfl, rfl⟩ := heq
    exact ⟨trivial, fun g hg => by cases hg⟩
  · simp [regrown] at heq

theorem regrown_survivors :
    Orderly regrown ∧
      Eval.evalAst ((registerAll regrown).registry {}) 2 (.call "h" [.number 3] [none]) {} =
        Eval.evalAst ((registerAll (survivors [] regrown)).registry {}) 2 (.call "h" [.number 3] [none]) {} :=
  ⟨orderly_regrown, evalAst_survivors {} orderly_regrown _ _ _⟩

example : (Eval.evalAst ((registerAll regrown).registry {}) 2 (.call "h" [.number 3] [none]) {}).map (·.1) = .ok (.number 6) := by rfl

def lastRegistrations : List (Registration D U) → List (Registration D U)
  | [] => []
  | r :: rs => if rs.any fun r' => r'.accepted && r'.name == r.name then lastRegistrations rs else r :: lastRegistrations rs

def handled : List (Registration Int Unit) :=
  [.struct_ "f" (fun _ _ => [.number 7]) 0 0 ["a"] none, .astHandler "f" (fun _ _ => .ok (.number 3)) 0 0]

theorem handled_extends :
    (Eval.evalAst ((registerAll handled).registry {}) 1 (.fieldOf (.call "f" [] []) "a") {}).map (·.1) = .ok (.number 7) ∧
    (Eval.evalAst ((registerAll (lastRegistrations handled)).registry {}) 1 (.fieldOf (.call "f" [] []) "a") {}).map (·.1) =
      .error ⟨.typeMismatch, "Field access requires a struct base"⟩ := by
  exact ⟨rfl, rfl⟩

end Cxpr
