import Cxpr.CallArgs
import Cxpr.Eval.Agree
import Cxpr.Eval.Scalar
import Cxpr.Timeseries

/-! Calls whose arguments are all named (`src/call/args.c`, the call cases of `src/eval/tree.c`): which order of writing
    the arguments matters to which kind of function. -/

namespace Cxpr.Eval
variable {D : Type}

/-- Each of the first parameters is the first that its own name finds, the other spellings counted. -/
def NamesItself (params : List String) (n : Nat) : Prop :=
  ∀ j p, j < n → params[j]? = some p → params.findIdx? (callParamNameMatches · p) = some j

def Names {α : Type} (params : List String) (args : List α) (named : List (String × α)) : Prop :=
  args.length ≤ params.length ∧ named.Perm ((params.take args.length).zip args)

section
variable {α : Type} {params : List String} {args : List α} {named : List (String × α)}

theorem Names.length_eq (h : Names params args named) : named.length = args.length := by
  rw [h.2.length_eq, List.length_zip, List.length_take]
  have hroom := h.1
  omega

theorem Names.getElem?_ordered (h : Names params args named) {j : Nat} {a : α} (ha : args[j]? = some a) :
    ∃ p, params[j]? = some p ∧ ((params.take args.length).zip args)[j]? = some (p, a) := by
  have hj := (List.getElem?_eq_some_iff.mp ha).1
  obtain ⟨p, hp⟩ : ∃ p, params[j]? = some p := ⟨_, List.getElem?_eq_getElem (Nat.lt_of_lt_of_le hj h.1)⟩
  exact ⟨p, hp, List.getElem?_zip_eq_some.mpr ⟨by rw [List.getElem?_take, if_pos hj, hp], ha⟩⟩

theorem Names.of_mem (h : Names params args named) {x : String × α} (hx : x ∈ named) :
    ∃ j : Nat, params[j]? = some x.1 ∧ args[j]? = some x.2 := by
  obtain ⟨j, hj⟩ := List.mem_iff_getElem?.mp (h.2.mem_iff.mp hx)
  obtain ⟨hp, ha⟩ := List.getElem?_zip_eq_some.mp hj
  rw [List.getElem?_take, if_pos (List.getElem?_eq_some_iff.mp ha).1] at hp
  exact ⟨j, hp, ha⟩

theorem namedArgs_of_named (named : List (String × α)) :
    namedArgs (named.map (·.2)) (named.map (some ·.1)) = named.map fun x => (some x.1, x.2) := by
  refine List.ext_getElem? fun i => ?_
  simp only [namedArgs, List.getElem?_mapIdx, List.getElem?_map, Option.map_map]
  cases named[i]? <;> rfl

theorem Names.fits (h : Names params args named) (hself : NamesItself params args.length) :
    Fits params (named.map fun x => (some x.1, x.2)) where
  places := by
    have hplaces : argPlaces params (named.map fun x => (some x.1, x.2)) =
        named.map fun x => params.findIdx? (callParamNameMatches · x.1) := by
      refine List.ext_getElem? fun i => ?_
      rw [getElem?_argPlaces, List.getElem?_map, List.getElem?_map, Option.map_map]
      rfl
    have hordered : (((params.take args.length).zip args).map fun x => params.findIdx? (callParamNameMatches · x.1)) =
        (List.range args.length).map some := by
      refine List.ext_getElem? fun j => ?_
      rw [List.getElem?_map, List.getElem?_map]
      cases ha : args[j]? with
      | none =>
        have hend := List.getElem?_eq_none_iff.mp ha
        have hzip : ((params.take args.length).zip args)[j]? = none := by
          rw [List.getElem?_eq_none_iff, List.length_zip]
          omega
        simp [hzip, hend]
      | some a =>
        have hj := (List.getElem?_eq_some_iff.mp ha).1
        obtain ⟨p, hp, hzip⟩ := h.getElem?_ordered ha
        simp [hzip, hj, hself j p hj hp]
    rw [hplaces, List.length_map, h.length_eq, ← hordered]
    exact h.2.map _
  positionalFirst := by
    refine List.pairwise_of_forall_mem_list fun x hx y hy _ => ?_
    obtain ⟨z, -, rfl⟩ := List.mem_map.mp hy
    rfl

theorem Names.stored_eq (h : Names params args named) (hself : NamesItself params args.length) {ordered : List α}
    (hcount : ordered.length = args.length) (hstored : Stored params (named.map fun x => (some x.1, x.2)) ordered) :
    ordered = args := by
  refine List.ext_getElem? fun j => ?_
  cases ha : args[j]? with
  | none =>
    have hend := List.getElem?_eq_none_iff.mp ha
    exact List.getElem?_eq_none_iff.mpr (by omega)
  | some a =>
    obtain ⟨p, hp, hzip⟩ := h.getElem?_ordered ha
    obtain ⟨i, hi⟩ := List.mem_iff_getElem?.mp (h.2.mem_iff.mpr (List.mem_of_getElem? hzip))
    obtain ⟨place, hplace, hvalue⟩ := hstored i (some p, a) (by rw [List.getElem?_map, hi]; rfl)
    have hj := (List.getElem?_eq_some_iff.mp ha).1
    obtain rfl : j = place := Option.some.inj ((hself j p hj hp).symm.trans hplace)
    exact hvalue

theorem callBindArgs_named {entry : FuncEntry D} (h : Names entry.entryParamNames args named)
    (hself : NamesItself entry.entryParamNames args.length) (hroom : entry.entryParamNames.length ≤ maxParamNames)
    (hfew : args.length ≤ maxCallArgs) :
    callBindArgs entry (named.map (·.2)) (named.map (some ·.1)) = .ok args := by
  have hfits := h.fits hself
  have hcount : (named.map (·.2)).length = args.length := by rw [List.length_map, h.length_eq]
  obtain ⟨ordered, hbound⟩ : ∃ ordered, callBindArgs entry (named.map (·.2)) (named.map (some ·.1)) = .ok ordered := by
    unfold callBindArgs
    rw [hcount, if_neg (Nat.not_lt.mpr hfew), namedArgs_of_named]
    split
    · exact ⟨_, rfl⟩
    rename_i huses
    have hnonempty : args ≠ [] := by
      rintro rfl
      simp [Ast.callUsesNamedArgs] at huses
    have hparams : ¬(entry.entryParamNames.isEmpty || decide (maxParamNames < entry.entryParamNames.length)) := by
      have hpos := List.length_pos_iff.mpr hnonempty
      have hle := h.1
      simp only [Bool.or_eq_true, List.isEmpty_iff, decide_eq_true_eq, not_or]
      refine ⟨fun hnil => ?_, Nat.not_lt.mpr hroom⟩
      rw [hnil, List.length_nil] at hle
      omega
    obtain ⟨first, hfirst⟩ := fillWindow_of_fits (fits_take.mpr hfits) (List.length_take_le ..)
    have hwindow : ∃ ordered, callBindNamedWindow entry.entryParamNames (named.map fun x => (some x.1, x.2)) = some ordered := by
      unfold callBindNamedWindow
      have hle : ¬entry.entryParamNames.length < (named.map fun x => (some x.1, x.2)).length := by
        rw [List.length_map, h.length_eq]
        exact Nat.not_lt.mpr h.1
      rw [if_neg hle, List.range_succ_eq_map, List.findSome?_cons, List.drop_zero, hfirst]
      exact ⟨first, rfl⟩
    obtain ⟨ordered, hordered⟩ := hwindow
    exact ⟨ordered, by simp only [hparams, hordered]; rfl⟩
  obtain ⟨w, hfitsw, hstored, hearlier⟩ := callBindArgs_eq_ok hbound
  rw [namedArgs_of_named] at hstored hearlier
  obtain rfl : w = 0 := by
    by_contra hw
    exact hearlier 0 (by omega) hfits
  rw [hbound, h.stored_eq hself ((callBindArgs_mem hbound).1.trans hcount) hstored]

end

section
variable [Double D] {reg : Registry D} {name : String} {entry : FuncEntry D} {n : Nat}

def ArgAccepted (reg : Registry D) (name : String) (argNames : List (Option String)) (i : Nat) (a : Ast D) : Prop :=
  ∃ t, (Typecheck.infer reg a).type = .ok t ∧ Typecheck.checkArg (reg.find name) name argNames i a t = .ok ()

omit [Double D] in
theorem forM_eq_ok {β : Type} {f : β → Except Error Unit} {xs : List β} : xs.forM f = .ok () ↔ ∀ x ∈ xs, f x = .ok () := by
  induction xs with
  | nil => simp [pure, Except.pure]
  | cons x xs ih =>
    show (f x >>= fun _ => xs.forM f) = .ok () ↔ _
    rw [bind_eq_ok, List.forall_mem_cons, ← ih]
    exact ⟨fun ⟨_, hx, hrest⟩ => ⟨hx, hrest⟩, fun ⟨hx, hrest⟩ => ⟨(), hx, hrest⟩⟩

theorem inferList_eq_map (args : List (Ast D)) : Typecheck.inferList reg args = args.map (Typecheck.infer reg) := by
  induction args with
  | nil => rfl
  | cons a args ih => rw [Typecheck.inferList, ih, List.map_cons]

def checkTyped (reg : Registry D) (name : String) (argNames : List (Option String))
    (x : (Ast D × Except Error Typecheck.StaticType) × Nat) : Except Error Unit := do
  Typecheck.checkArg (reg.find name) name argNames x.2 x.1.1 (← x.1.2)

variable {args : List (Ast D)} {argNames : List (Option String)}

theorem inferCall_plain (hif : name = "if" → args.length ≠ 3) (argNames : List (Option String))
    (types : List (Except Error Typecheck.StaticType)) :
    Typecheck.inferCall reg name args argNames types =
      ((args.zip types).zipIdx.forM (checkTyped reg name argNames) >>= fun _ => pure ((reg.find name).bind (·.returnType))) := by
  unfold Typecheck.inferCall
  split
  · rename_i hname
    exact absurd rfl (hif (beq_iff_eq.mp hname))
  · rfl

theorem typecheck_call_eq_ok (hif : name = "if" → args.length ≠ 3) :
    (∃ t, typecheck (.call name args argNames) reg = .ok t) ↔
      ∀ (i : Nat) (a : Ast D), args[i]? = some a → ArgAccepted reg name argNames i a := by
  unfold typecheck
  rw [Typecheck.infer, inferCall_plain hif, Typecheck.Static.scalar, Typecheck.Static.type, inferList_eq_map, List.map_map]
  have hget : ∀ i : Nat, ((args.zip (args.map (Typecheck.Static.type ∘ Typecheck.infer reg))).zipIdx)[i]? =
      args[i]?.map fun a => ((a, (Typecheck.infer reg a).type), i) := by
    intro i
    rw [List.getElem?_zipIdx, Nat.zero_add]
    cases ha : args[i]? with
    | none =>
      have hend := List.getElem?_eq_none_iff.mp ha
      have hzip : (args.zip (args.map (Typecheck.Static.type ∘ Typecheck.infer reg)))[i]? = none := by
        rw [List.getElem?_eq_none_iff, List.length_zip]
        omega
      rw [hzip]
      rfl
    | some a =>
      rw [List.getElem?_zip_eq_some (z := (a, (Typecheck.infer reg a).type)) |>.mpr ⟨ha, by rw [List.getElem?_map, ha]; rfl⟩]
      rfl
  constructor
  · rintro ⟨t, ht⟩ i a ha
    obtain ⟨_, hchecks, -⟩ := bind_eq_ok.mp ht
    have hone := forM_eq_ok.mp hchecks _ (List.mem_of_getElem? ((hget i).trans (by rw [ha]; rfl)))
    obtain ⟨type, htype, hcheck⟩ := bind_eq_ok.mp hone
    exact ⟨type, htype, hcheck⟩
  · intro h
    refine ⟨_, bind_eq_ok.mpr ⟨(), forM_eq_ok.mpr fun x hx => ?_, rfl⟩⟩
    obtain ⟨i, hi⟩ := List.mem_iff_getElem?.mp hx
    obtain ⟨a, ha, rfl⟩ := Option.map_eq_some_iff.mp ((hget i).symm.trans hi)
    obtain ⟨type, htype, hcheck⟩ := h i a ha
    exact bind_eq_ok.mpr ⟨type, htype, hcheck⟩

theorem checkArg_named (hself : NamesItself entry.entryParamNames n) {i j : Nat} {p : String} (hj : j < n)
    (hp : entry.entryParamNames[j]? = some p) (hname : argNames[i]? = some (some p))
    (a : Ast D) (t : Typecheck.StaticType) :
    Typecheck.checkArg (some entry) name argNames i a t = Typecheck.checkArg (some entry) name [] j a t := by
  have hplace : entry.entryParamNames.findIdx? (· == p) = some j := by
    obtain ⟨hlt, -, hfirst⟩ := List.findIdx?_eq_some_iff_getElem.mp (hself j p hj hp)
    have hget := (List.getElem?_eq_some_iff.mp hp).2
    refine List.findIdx?_eq_some_iff_getElem.mpr ⟨hlt, by simpa using hget, fun i hi heq => hfirst i hi ?_⟩
    simp [callParamNameMatches, beq_iff_eq.mp heq]
  unfold Typecheck.checkArg
  simp only [hname, hplace, Option.getD_some, List.getElem?_nil]

theorem typecheck_named {named : List (String × Ast D)} (hfind : reg.find name = some entry)
    (h : Names entry.entryParamNames args named) (hself : NamesItself entry.entryParamNames args.length)
    (hif : name = "if" → args.length ≠ 3) :
    (∃ t, typecheck (.call name (named.map (·.2)) (named.map (some ·.1))) reg = .ok t) ↔
      ∃ t, typecheck (.call name args []) reg = .ok t := by
  have hplaces : ∀ (i j : Nat) (p : String) (a : Ast D), named[i]? = some (p, a) → args[j]? = some a →
      entry.entryParamNames[j]? = some p →
      (ArgAccepted reg name (named.map (some ·.1)) i a ↔ ArgAccepted reg name [] j a) := by
    intro i j p a hi ha hp
    unfold ArgAccepted
    rw [hfind]
    simp only [checkArg_named hself (List.getElem?_eq_some_iff.mp ha).1 hp
      (show (named.map (some ·.1))[i]? = some (some p) by rw [List.getElem?_map, hi]; rfl)]
  rw [typecheck_call_eq_ok hif, typecheck_call_eq_ok (by rwa [List.length_map, h.length_eq])]
  constructor
  · intro hnamed j a ha
    obtain ⟨p, hp, hzip⟩ := h.getElem?_ordered ha
    obtain ⟨i, hi⟩ := List.mem_iff_getElem?.mp (h.2.mem_iff.mpr (List.mem_of_getElem? hzip))
    exact (hplaces i j p a hi ha hp).mp (hnamed i a (by rw [List.getElem?_map, hi]; rfl))
  · intro hordered i a hi
    obtain ⟨x, hx, rfl⟩ := Option.map_eq_some_iff.mp ((List.getElem?_map ..).symm.trans hi)
    obtain ⟨j, hp, ha⟩ := h.of_mem (List.mem_of_getElem? hx)
    exact (hplaces i j x.1 x.2 hx ha hp).mpr (hordered j x.2 ha)

theorem inferBinary_number {op : BinaryOp} (hop : op ∈ [.plus, .minus, .star, .slash, .percent, .power]) {l r : Ast D}
    {t : Typecheck.StaticType} (h : Typecheck.inferBinary op l r (some .number) (some .number) = .ok t) :
    t = some .number := by
  simp only [List.mem_cons, List.not_mem_nil, or_false] at hop
  rcases hop with rfl | rfl | rfl | rfl | rfl | rfl
  case inr.inr.inr.inr.inl | inr.inr.inr.inr.inr => cases h; rfl
  all_goals
    have hshapes : Typecheck.recordShapesMatch l r = true := by
      by_contra hno
      rw [Bool.not_eq_true] at hno
      simp only [Typecheck.inferBinary, hno] at h
      cases h
    simp only [Typecheck.inferBinary, hshapes] at h
    cases h
    rfl

theorem constantDouble_spec (deeper : Ast D → EvalM D (Value D)) :
    ∀ (a : Ast D) (d : D), constantDouble (fun _ => none) a = some d → (∃ t, (Typecheck.infer reg a).type = .ok t) →
      (Typecheck.infer reg a).type = .ok (some .number) ∧ ∀ ctx, evalNode reg deeper a ctx = .ok (.number d, ctx)
  | .number v, d, h, _ => by
    cases h
    exact ⟨rfl, fun _ => rfl⟩
  | .unary op a, d, h, ⟨t, ht⟩ => by
    cases op with
    | not => cases h
    | minus =>
      obtain ⟨v, hv, rfl⟩ := Option.map_eq_some_iff.mp h
      rw [Typecheck.infer] at ht
      obtain ⟨type, hinner, -⟩ := bind_eq_ok.mp ht
      obtain ⟨htype, heval⟩ := constantDouble_spec deeper a v hv ⟨type, hinner⟩
      refine ⟨by rw [Typecheck.infer]; show ((Typecheck.infer reg a).type >>= _) = _; rw [htype]; rfl, fun ctx => ?_⟩
      rw [evalNode, Stateful.bind_apply_ok (heval ctx)]
      rfl
  | .binary op l r, d, h, ⟨t, ht⟩ => by
    obtain ⟨x, hx, h⟩ := Option.bind_eq_some_iff.mp h
    obtain ⟨y, hy, h⟩ := Option.bind_eq_some_iff.mp h
    rw [Typecheck.infer] at ht
    obtain ⟨lt, hlt, ht⟩ := bind_eq_ok.mp ht
    obtain ⟨rt, hrt, ht⟩ := bind_eq_ok.mp ht
    obtain ⟨hltype, hleval⟩ := constantDouble_spec deeper l x hx ⟨lt, hlt⟩
    obtain ⟨hrtype, hreval⟩ := constantDouble_spec deeper r y hy ⟨rt, hrt⟩
    obtain rfl : some .number = lt := Except.ok.inj (hltype.symm.trans hlt)
    obtain rfl : some .number = rt := Except.ok.inj (hrtype.symm.trans hrt)
    have hvalue : binaryValues op (.number x) (.number y) = .ok (.number d) ∧ t = some .number ∧ op ≠ .and ∧ op ≠ .or := by
      cases op with
      | plus | minus | star =>
        cases h
        refine ⟨rfl, inferBinary_number (by decide) ht, by decide, by decide⟩
      | power =>
        cases h
        exact ⟨rfl, inferBinary_number (by decide) ht, by decide, by decide⟩
      | slash | percent =>
        dsimp only at h
        split at h
        · cases h
        · rename_i hnonzero
          cases h
          refine ⟨?_, inferBinary_number (by decide) ht, by decide, by decide⟩
          simp [binaryValues, arithmeticOp, hnonzero]
      | _ => cases h
    obtain ⟨hvalue, rfl, hand, hor⟩ := hvalue
    refine ⟨?_, fun ctx => ?_⟩
    · rw [Typecheck.infer]
      exact bind_eq_ok.mpr ⟨_, hltype, bind_eq_ok.mpr ⟨_, hrtype, ht⟩⟩
    · rw [evalNode, evalBinary, Stateful.bind_apply_ok (hleval ctx)]
      cases op with
      | and => exact absurd rfl hand
      | or => exact absurd rfl hor
      | _ =>
        dsimp only
        rw [Stateful.bind_apply_ok (hreval ctx), hvalue]
        rfl
  | .ternary c t e, d, h, ⟨type, htype⟩ => by
    obtain ⟨v, hv, -⟩ := Option.bind_eq_some_iff.mp h
    rw [Typecheck.infer] at htype
    obtain ⟨condType, hcond, htype⟩ := bind_eq_ok.mp htype
    obtain ⟨hnumber, -⟩ := constantDouble_spec deeper c v hv ⟨condType, hcond⟩
    obtain rfl : some .number = condType := Except.ok.inj (hnumber.symm.trans hcond)
    cases htype

/-! ### Evaluation -/

omit [Double D] in
def outcome {α : Type} (x : Except Error (α × Context D)) : Option α := x.toOption.map Prod.fst

omit [Double D] in
/-- A function that gets its arguments bound, by parameters that name themselves. -/
structure ReadsBound (entry : FuncEntry D) (n : Nat) : Prop where
  ast : (entry.astFuncHandler <|> entry.astFunc) = none
  model : entry.modelProducer = none
  oneKind : entry.structProducer.isSome → entry.definedBody = none ∧ entry.definedReturnFields = []
  namesItself : NamesItself entry.entryParamNames n
  fewParams : entry.entryParamNames.length ≤ maxParamNames

theorem evalCall_congr (hfind : reg.find name = some entry) (h : ReadsBound entry n)
    (hpure : (entry.structProducer.isSome && entry.syncFunc.isNone && entry.valueFunc.isNone) = false)
    (deeper : Ast D → EvalM D (Value D)) {args' : List (Ast D)} {argNames' : List (Option String)}
    (hlen : args'.length = args.length)
    (hbound : callBindArgs entry (args'.zip (evalActs reg deeper args')) argNames' =
      callBindArgs entry (args.zip (evalActs reg deeper args)) argNames) :
    evalCall reg deeper name args' argNames' (evalActs reg deeper args') =
      evalCall reg deeper name args argNames (evalActs reg deeper args) := by
  unfold evalCall
  simp only [hfind, h.ast, hpure, hbound, h.model, hlen, Bool.false_and, Bool.false_eq_true, if_false]

section
variable {args : List (Ast D)} {named : List (String × Ast D)}

omit [Double D] in
@[simp] theorem callUsesNamedArgs_nil (argc : Nat) : Ast.callUsesNamedArgs argc [] = false := by
  simp [Ast.callUsesNamedArgs]

omit [Double D] in
theorem callUsesNamedArgs_named {argc : Nat} (hsome : named ≠ []) (hargc : named.length = argc) :
    Ast.callUsesNamedArgs argc (named.map (some ·.1)) = true := by
  obtain ⟨x, rest, rfl⟩ := List.exists_cons_of_ne_nil hsome
  simp [Ast.callUsesNamedArgs, ← hargc]

theorem callBindArgs_both (reg : Registry D) (h : Names entry.entryParamNames args named) (hb : ReadsBound entry args.length)
    (hfew : args.length ≤ maxCallArgs) (deeper : Ast D → EvalM D (Value D)) :
    callBindArgs entry ((named.map (·.2)).zip (evalActs reg deeper (named.map (·.2)))) (named.map (some ·.1)) =
        .ok (args.map fun a => (a, evalNode reg deeper a)) ∧
      callBindArgs entry (args.zip (evalActs reg deeper args)) [] = .ok (args.map fun a => (a, evalNode reg deeper a)) := by
  constructor
  · rw [callBindArgs_zip_evalActs, callBindArgs_named h hb.namesItself hb.fewParams hfew]
    rfl
  · rw [callBindArgs_zip_evalActs]
    unfold callBindArgs
    rw [if_neg (Nat.not_lt.mpr hfew), callUsesNamedArgs_nil]
    rfl

omit [Double D] in
theorem callBindArgs_many {α : Type} {as : List α} (hmany : maxCallArgs < as.length) (argNames : List (Option String)) :
    callBindArgs entry as argNames = .error ⟨.wrongArity, "Too many function arguments"⟩ := by
  unfold callBindArgs
  rw [if_pos hmany]

variable {values : List D} {ast : Ast D}

theorem length_constants (hvalues : args.mapM (constantDouble fun _ => none) = some values) :
    values.length = args.length := by
  induction args generalizing values with
  | nil =>
    cases hvalues
    rfl
  | cons a args ih =>
    rw [List.mapM_cons] at hvalues
    obtain ⟨d, -, hvalues⟩ := Option.bind_eq_some_iff.mp hvalues
    obtain ⟨rest, hrest, hvalues⟩ := Option.bind_eq_some_iff.mp hvalues
    cases hvalues
    rw [List.length_cons, List.length_cons, ih hrest]

theorem scalarArgs_constants (deeper : Ast D → EvalM D (Value D))
    (htypes : ∀ a ∈ args, ∃ t, (Typecheck.infer reg a).type = .ok t)
    (hvalues : args.mapM (constantDouble fun _ => none) = some values) (ctx : Context D) :
    scalarArgs (args.map (evalNode reg deeper)) ctx = .ok (values, ctx) := by
  induction args generalizing values with
  | nil =>
    cases hvalues
    rfl
  | cons a args ih =>
    rw [List.mapM_cons] at hvalues
    obtain ⟨d, hd, hvalues⟩ := Option.bind_eq_some_iff.mp hvalues
    obtain ⟨rest, hrest, hvalues⟩ := Option.bind_eq_some_iff.mp hvalues
    cases hvalues
    have hhead := (constantDouble_spec deeper a d hd (htypes a (by simp))).2 ctx
    have harg : scalarArg (evalNode reg deeper a) ctx = .ok (d, ctx) := by
      rw [scalarArg, Stateful.bind_apply_ok hhead]
      rfl
    rw [List.map_cons, scalarArgs, Stateful.bind_apply_ok harg,
      Stateful.bind_apply_ok (ih (fun b hb => htypes b (by simp [hb])) hrest)]
    rfl

/-- The structs that the context keeps for the producer come from calls that it accepts. -/
def KeepsAccepted (entry : FuncEntry D) (ctx : Context D) : Prop :=
  ∀ values : List D, (ctx.getCachedStruct (buildStructCacheKey entry.name values)).isSome →
    entry.minArgs ≤ values.length ∧ values.length ≤ entry.maxArgs ∧ entry.fieldsPerArg ≤ maxProducerFields

variable {acts : List (EvalM D (Value D))} {values : List D} {ctx : Context D}

theorem structResult_hint (hscalar : scalarArgs acts ctx = .ok (values, ctx)) :
    structResult entry name acts (some (buildStructCacheKey name values)) ctx = structResult entry name acts none ctx := by
  unfold structResult
  cases entry.structProducer with
  | none => rfl
  | some producer =>
    dsimp only
    split
    · rfl
    split
    · rfl
    rw [Stateful.bind_apply_ok hscalar, Stateful.bind_apply_ok hscalar]
    rfl

theorem structResult_kept (hscalar : scalarArgs acts ctx = .ok (values, ctx)) (hproducer : entry.structProducer.isSome)
    (hargs : entry.minArgs ≤ acts.length ∧ acts.length ≤ entry.maxArgs) (hfew : acts.length ≤ maxCallArgs)
    (hfields : entry.fieldsPerArg ≤ maxProducerFields) {kept : List (String × Value D)}
    (hkept : ctx.getCachedStruct (buildStructCacheKey name values) = some kept) :
    structResult entry name acts none ctx = .ok (kept, ctx) := by
  obtain ⟨producer, hproducer⟩ := Option.isSome_iff_exists.mp hproducer
  unfold structResult
  simp only [hproducer]
  rw [if_neg (by simp; omega), if_neg (by simp; omega), Stateful.bind_apply_ok hscalar]
  refine (Stateful.bind_apply_ok rfl).trans ?_
  simp only [Option.getD_none, hkept]
  rfl

theorem evalCall_producer (hfind : reg.find name = some entry) (h : Names entry.entryParamNames args named)
    (hb : ReadsBound entry args.length) (hname : entry.name = name)
    (hpure : (entry.structProducer.isSome && entry.syncFunc.isNone && entry.valueFunc.isNone) = true)
    (hkeeps : KeepsAccepted entry ctx) (hsome : named ≠ []) (hfew : args.length ≤ maxCallArgs)
    (htypes : ∀ a ∈ args, ∃ t, (Typecheck.infer reg a).type = .ok t) (deeper : Ast D → EvalM D (Value D)) :
    evalCall reg deeper name (named.map (·.2)) (named.map (some ·.1)) (evalActs reg deeper (named.map (·.2))) ctx =
      evalCall reg deeper name args [] (evalActs reg deeper args) ctx := by
  obtain ⟨hbound, -⟩ := callBindArgs_both reg h hb hfew deeper
  have hproducer : entry.structProducer.isSome = true := by
    simp only [Bool.and_eq_true] at hpure
    exact hpure.1.1
  obtain ⟨hbody, hreturn⟩ := hb.oneKind hproducer
  have hnamed : evalCall reg deeper name (named.map (·.2)) (named.map (some ·.1)) (evalActs reg deeper (named.map (·.2))) ctx =
      (structResult entry name (args.map (evalNode reg deeper)) none >>= fun s => pure (.struct s)) ctx := by
    have huses : Ast.callUsesNamedArgs (named.map (·.2)).length (named.map (some ·.1)) = true :=
      callUsesNamedArgs_named hsome (List.length_map _).symm
    unfold evalCall
    simp only [hfind, hb.ast, hpure, huses, hbound, hb.model, hbody, hreturn, Bool.not_true,
      Bool.and_false, Bool.false_eq_true, if_false, if_true, Option.isSome_none, List.isEmpty_nil, Bool.or_false]
    refine (Stateful.bind_apply_ok rfl).trans ((Stateful.bind_apply_ok rfl).trans ?_)
    rw [List.map_map]
    rfl
  rw [hnamed]
  unfold evalCall
  simp only [hfind, hb.ast, hpure, callUsesNamedArgs_nil, evalActs_eq_map]
  refine Eq.trans ?_ (Stateful.bind_apply_ok rfl).symm
  rw [if_pos (by simp)]
  cases hkey : constantKey name args fun _ => none with
  | none => rfl
  | some key =>
    obtain ⟨values, hvalues, rfl⟩ : ∃ values, args.mapM (constantDouble fun _ => none) = some values ∧
        buildStructCacheKey name values = key := by
      unfold constantKey at hkey
      rw [if_neg (Nat.not_lt.mpr hfew)] at hkey
      exact Option.map_eq_some_iff.mp hkey
    have hscalar := scalarArgs_constants deeper htypes hvalues ctx
    have hlen : (args.map (evalNode reg deeper)).length = values.length := by
      rw [List.length_map, length_constants hvalues]
    cases hkept : ctx.getCachedStruct (buildStructCacheKey name values) with
    | none =>
      have hhint : structResult entry name (args.map (evalNode reg deeper)) (some (buildStructCacheKey name values)) ctx =
          structResult entry name (args.map (evalNode reg deeper)) none ctx := structResult_hint hscalar
      simp only [Option.bind_some, hkept]
      show (structResult entry name (args.map (evalNode reg deeper)) none ctx >>= _) =
        (structResult entry name (args.map (evalNode reg deeper)) (some (buildStructCacheKey name values)) ctx >>= _)
      rw [hhint]
    | some kept =>
      obtain ⟨hmin, hmax, hfields⟩ := hkeeps values (by rw [hname, hkept]; rfl)
      have hresult := structResult_kept hscalar hproducer (by rw [hlen]; exact ⟨hmin, hmax⟩)
        (by rw [List.length_map]; exact hfew) hfields hkept
      simp only [Option.bind_some, hkept]
      rw [Stateful.bind_apply_ok hresult]

theorem evalCall_many (hfind : reg.find name = some entry) (hb : ReadsBound entry n) (hmany : maxCallArgs < args.length)
    (argNames : List (Option String)) (deeper : Ast D → EvalM D (Value D)) :
    outcome (evalCall reg deeper name args argNames (evalActs reg deeper args) ctx) = none := by
  have hzip : maxCallArgs < (args.zip (evalActs reg deeper args)).length := by
    rw [evalActs_eq_map, List.length_zip, List.length_map, Nat.min_self]
    exact hmany
  have hkey : constantKey name args (fun _ => none) = none := if_pos hmany
  have hresult : ∃ e, structResult entry name (evalActs reg deeper args) none ctx = .error e := by
    unfold structResult
    cases entry.structProducer with
    | none => exact ⟨_, rfl⟩
    | some producer =>
      dsimp only
      split
      · exact ⟨_, rfl⟩
      · rw [if_pos (by rw [evalActs_eq_map, List.length_map]; simp [hmany])]
        exact ⟨_, rfl⟩
  unfold evalCall
  simp only [hfind, hb.ast, callBindArgs_many hzip, hkey, Option.bind_none]
  split
  · obtain ⟨e, he⟩ := hresult
    show outcome (structResult entry name (evalActs reg deeper args) none ctx >>= _) = none
    rw [he]
    rfl
  · rfl

theorem evalCall_named (hfind : reg.find name = some entry) (h : Names entry.entryParamNames args named)
    (hb : ReadsBound entry args.length) (hkeeps : entry.structProducer.isSome → KeepsAccepted entry ctx)
    (htypes : ∀ a ∈ args, ∃ t, (Typecheck.infer reg a).type = .ok t) (deeper : Ast D → EvalM D (Value D)) :
    outcome (evalCall reg deeper name (named.map (·.2)) (named.map (some ·.1)) (evalActs reg deeper (named.map (·.2))) ctx) =
      outcome (evalCall reg deeper name args [] (evalActs reg deeper args) ctx) := by
  have hlen : (named.map (·.2)).length = args.length := by rw [List.length_map, h.length_eq]
  by_cases hsome : named = []
  · obtain rfl : args = [] := List.eq_nil_of_length_eq_zero (by rw [← hlen, hsome]; rfl)
    rw [hsome]
    rfl
  rcases Nat.lt_or_ge maxCallArgs args.length with hmany | hfew
  · rw [evalCall_many hfind hb hmany, evalCall_many hfind hb (by rw [hlen]; exact hmany)]
  · obtain ⟨hbound, hbound'⟩ := callBindArgs_both reg h hb hfew deeper
    cases hpure : entry.structProducer.isSome && entry.syncFunc.isNone && entry.valueFunc.isNone with
    | false => rw [evalCall_congr hfind hb hpure deeper hlen (hbound.trans hbound'.symm)]
    | true =>
      have hname : entry.name = name := by simpa using List.find?_some hfind
      have hproducer : entry.structProducer.isSome = true := by
        simp only [Bool.and_eq_true] at hpure
        exact hpure.1.1
      rw [evalCall_producer hfind h hb hname hpure (hkeeps hproducer) hsome hfew htypes]

theorem constantDouble_param (param : String → Option D) :
    ∀ (a : Ast D) (d : D), constantDouble (fun _ => none) a = some d → constantDouble param a = some d
  | .number _, _, h => h
  | .unary op a, d, h => by
    cases op with
    | not => cases h
    | minus =>
      obtain ⟨v, hv, hd⟩ := Option.map_eq_some_iff.mp h
      exact Option.map_eq_some_iff.mpr ⟨v, constantDouble_param param a v hv, hd⟩
  | .binary op l r, d, h => by
    obtain ⟨x, hx, h⟩ := Option.bind_eq_some_iff.mp h
    obtain ⟨y, hy, h⟩ := Option.bind_eq_some_iff.mp h
    exact Option.bind_eq_some_iff.mpr ⟨x, constantDouble_param param l x hx,
      Option.bind_eq_some_iff.mpr ⟨y, constantDouble_param param r y hy, h⟩⟩
  | .ternary c t e, d, h => by
    obtain ⟨v, hv, h⟩ := Option.bind_eq_some_iff.mp h
    refine Option.bind_eq_some_iff.mpr ⟨v, constantDouble_param param c v hv, ?_⟩
    split at h
    · rename_i htrue
      rw [if_pos htrue]
      exact constantDouble_param param t d h
    · rename_i hfalse
      rw [if_neg hfalse]
      exact constantDouble_param param e d h

theorem mapM_constantDouble_param (param : String → Option D)
    (h : args.mapM (constantDouble fun _ => none) = some values) : args.mapM (constantDouble param) = some values := by
  induction args generalizing values with
  | nil => exact h
  | cons a args ih =>
    rw [List.mapM_cons] at h ⊢
    obtain ⟨d, hd, h⟩ := Option.bind_eq_some_iff.mp h
    obtain ⟨rest, hrest, h⟩ := Option.bind_eq_some_iff.mp h
    exact Option.bind_eq_some_iff.mpr ⟨d, constantDouble_param param a d hd,
      Option.bind_eq_some_iff.mpr ⟨rest, ih hrest, h⟩⟩

theorem constantKey_param {key : String} (param : String → Option D) (h : constantKey name args (fun _ => none) = some key) :
    constantKey name args param = some key := by
  unfold constantKey at h ⊢
  split at h
  · cases h
  rename_i hfew
  obtain ⟨values, hvalues, hkey⟩ := Option.map_eq_some_iff.mp h
  rw [if_neg hfew]
  exact Option.map_eq_some_iff.mpr ⟨values, mapM_constantDouble_param param hvalues, hkey⟩

theorem producerKey_named (hlen : named.length = args.length) (hsome : named ≠ []) (deeper : Ast D → EvalM D (Value D)) :
    producerKey name (named.map (·.2)) (named.map (some ·.1)) (args.map fun a => (a, evalNode reg deeper a)) =
      producerKey name args [] (args.map fun a => (a, evalNode reg deeper a)) := by
  have hargs : args.isEmpty = false := by
    cases args with
    | nil => exact absurd (List.eq_nil_of_length_eq_zero hlen) hsome
    | cons a args => rfl
  have hnamed : (named.map (·.2)).isEmpty = false := by
    cases named with
    | nil => exact absurd rfl hsome
    | cons x named => rfl
  have hnodes : (args.map fun a => (a, evalNode reg deeper a)).map (·.1) = args := by
    rw [List.map_map]
    exact List.map_id args
  have huses := callUsesNamedArgs_named hsome hlen
  unfold producerKey
  simp only [huses, callUsesNamedArgs_nil, hargs, hnamed, hnodes, List.length_map, hlen, if_true,
    Bool.false_eq_true, if_false]
  congr
  funext ctx
  cases hkey : constantKey name args fun _ => none with
  | none => rfl
  | some key => rw [constantKey_param ctx.getParam hkey]; rfl

theorem evalProducerAccess_named (hfind : reg.find name = some entry) (h : Names entry.entryParamNames args named)
    (hb : ReadsBound entry args.length) (deeper : Ast D → EvalM D (Value D)) (field : String) :
    outcome (evalProducerAccess reg deeper name (named.map (·.2)) (named.map (some ·.1)) field
        (evalActs reg deeper (named.map (·.2))) ctx) =
      outcome (evalProducerAccess reg deeper name args [] field (evalActs reg deeper args) ctx) := by
  have hlen : (named.map (·.2)).length = args.length := by rw [List.length_map, h.length_eq]
  by_cases hsome : named = []
  · obtain rfl : args = [] := List.eq_nil_of_length_eq_zero (by rw [← hlen, hsome]; rfl)
    rw [hsome]
    rfl
  have hzip : ∀ as : List (Ast D), (as.zip (evalActs reg deeper as)).length = as.length := by
    intro as
    rw [evalActs_eq_map, List.length_zip, List.length_map, Nat.min_self]
  unfold evalProducerAccess
  simp only [hfind, hb.model]
  split
  · rfl
  rcases Nat.lt_or_ge maxCallArgs args.length with hmany | hfew
  · rw [callBindArgs_many (by rw [hzip, hlen]; exact hmany), callBindArgs_many (by rw [hzip]; exact hmany)]
    rfl
  · obtain ⟨hbound, hbound'⟩ := callBindArgs_both reg h hb hfew deeper
    rw [hbound, hbound']
    refine congrArg outcome (((Stateful.bind_apply_ok rfl).trans ?_).trans (Stateful.bind_apply_ok rfl).symm)
    rw [producerKey_named h.length_eq hsome]

/-- When the order of the arguments does not matter: the function gets them bound, or it is a time-series function and they
    are written in the order of its parameters. -/
inductive Orderly (entry : FuncEntry D) (args : List (Ast D)) (named : List (String × Ast D)) (ctx : Context D) : Prop where
  | bound : ReadsBound entry args.length → (entry.structProducer.isSome → KeepsAccepted entry ctx) →
      Orderly entry args named ctx
  | inOrder (f : Timeseries.ArgsFunc D) : entry.astFuncHandler = none → entry.astFunc = some (Timeseries.ofCall f) →
      entry.structProducer = none → entry.modelProducer = none → entry.definedReturnFields = [] →
      NamesItself entry.entryParamNames args.length → named = (entry.entryParamNames.take args.length).zip args →
      Orderly entry args named ctx

theorem Orderly.namesItself (h : Orderly entry args named ctx) : NamesItself entry.entryParamNames args.length := by
  cases h with
  | bound h _ => exact h.namesItself
  | inOrder _ _ _ _ _ _ h _ => exact h

theorem Orderly.handler (h : Orderly entry args named ctx) : entry.astFuncHandler = none := by
  cases h with
  | bound h _ =>
    have hnone := h.ast
    cases hhandler : entry.astFuncHandler with
    | none => rfl
    | some f => simp [hhandler] at hnone
  | inOrder _ h _ _ _ _ _ _ => exact h

omit [Double D] in
theorem memoSet_run (ast : Ast D) (v : Value D) (ctx : Context D) : ∃ ctx', memoSet ast v ctx = .ok ((), ctx') := by
  unfold memoSet
  split
  · exact ⟨_, rfl⟩
  split
  · exact ⟨_, rfl⟩
  split <;> exact ⟨_, rfl⟩

theorem memoized_outcome {act : EvalM D (Value D)} (hmemo : memoGet ast ctx = .ok (none, ctx)) :
    outcome (memoized reg name ast act ctx) = outcome (act ctx) := by
  unfold memoized
  split
  · rw [Stateful.bind_apply_ok hmemo]
    show outcome (act ctx >>= _) = _
    rcases act ctx with e | ⟨v, c⟩
    · rfl
    · obtain ⟨c', hset⟩ := memoSet_run ast v c
      show outcome ((memoSet ast v >>= fun _ => pure v : EvalM D (Value D)) c) = _
      rw [Stateful.bind_apply_ok hset]
      rfl
  · rfl

theorem memoGet_memoEnter (hidle : Idle ctx) (ast : Ast D) :
    memoGet ast (memoEnter ctx) = .ok (none, memoEnter ctx) := by
  cases ctx with
  | nil => rfl
  | cons f parent =>
    have hdepth : f.evalMemoDepth = 0 := hidle f (by simp)
    simp [memoGet, memoEnter, Context.update, hdepth]

omit [Double D] in
theorem getCachedStruct_memoEnter (key : String) : (memoEnter ctx).getCachedStruct key = ctx.getCachedStruct key := by
  cases ctx <;> rfl

theorem outcome_evalAst (htype : ∃ t, typecheck ast reg = .ok t) (depth : Nat) :
    outcome (evalAst reg depth ast ctx) = outcome (evalDepth reg depth ast (memoEnter ctx)) := by
  obtain ⟨t, ht⟩ := htype
  unfold evalAst evalAstValue
  rw [ht]
  show outcome (evalDepth reg depth ast (memoEnter ctx) >>= _) = _
  rcases evalDepth reg depth ast (memoEnter ctx) with e | ⟨v, c⟩ <;> rfl

theorem outcome_evalAst_refused (htype : ¬∃ t, typecheck ast reg = .ok t) (depth : Nat) :
    outcome (evalAst reg depth ast ctx) = none := by
  unfold evalAst
  cases ht : typecheck ast reg with
  | ok t => exact absurd ⟨t, ht⟩ htype
  | error e => rfl

theorem outcome_evalDepth_call (hidle : Idle ctx) (depth : Nat) (argNames : List (Option String)) :
    outcome (evalDepth reg (depth + 1) (.call name args argNames) (memoEnter ctx)) =
      outcome (evalCall reg (evalDepth reg depth) name args argNames (evalActs reg (evalDepth reg depth) args) (memoEnter ctx)) := by
  rw [evalDepth, evalNode]
  exact memoized_outcome (memoGet_memoEnter hidle _)

end
end

instance (params : List String) (n : Nat) : Decidable (NamesItself params n) :=
  decidable_of_iff (∀ j < n, params[j]?.all (fun p => params.findIdx? (callParamNameMatches · p) == some j) = true) <| by
    unfold NamesItself
    refine ⟨fun h j p hj hp => ?_, fun h j hj => ?_⟩
    · have hone := h j hj
      rw [hp] at hone
      exact beq_iff_eq.mp hone
    · cases hp : params[j]? with
      | none => rfl
      | some p => exact beq_iff_eq.mpr (h j p hj hp)

def rampAt : Ast Int → Nat → Context Int → Except Error Int
  | .number v, _, _ => .ok v
  | .identifier name, i, ctx =>
    match ctx.get name with
    | some v => .ok (v - i)
    | none => .error ⟨.unknownIdentifier, unknownMessage "Unknown identifier" name⟩
  | _, _, _ => .error ⟨.typeMismatch, "Expression did not evaluate to number"⟩

def ramp : Timeseries.Evaluator Int where
  number ast ctx := rampAt ast 0 ctx
  numberAt := rampAt
  boolAt _ _ _ := .error ⟨.typeMismatch, "Expression did not evaluate to bool"⟩

/-- `sub(left, right)` as a native function and `delta` as `cxpr_register_timeseries` registers it. -/
def differences : Registry Int where
  entries :=
    [{ name := "sub", syncFunc := some fun values => values[0]?.getD 0 - values[1]?.getD 0, native := .binary (· - ·),
       minArgs := 2, maxArgs := 2, paramNames := ["left", "right"], returnType := some .number },
     { name := "delta", astFunc := some (Timeseries.ofCall (Timeseries.delta ramp)), minArgs := 2, maxArgs := 2,
       paramNames := ["value", "samples"], returnType := some .number }]

/-- The position at which `x` is ten. -/
def atTen : Context Int := [({} : Frame Int).set "x" 10]

end Cxpr.Eval
