import Cxpr.Source.Plan

/-! The arguments of a runtime call in another order (`src/runtime/call.c`): what the call says about its scope and about
    how many of its arguments are numbers, and the numbers that are evaluated. -/

namespace Cxpr.Source
variable {D : Type}

theorem find?_perm {α : Type} {l l' : List (String × α)} (h : l.Perm l') (hn : (l.map Prod.fst).Nodup) (k : String) :
    l.find? (fun a => decide (a.1 = k)) = l'.find? (fun a => decide (a.1 = k)) := by
  induction h with
  | nil => rfl
  | cons a h ih =>
    rw [List.map_cons, List.nodup_cons] at hn
    rw [List.find?_cons, List.find?_cons, ih hn.2]
  | swap a b l =>
    have hne : b.1 ≠ a.1 := by
      intro heq
      simp [heq] at hn
    by_cases ha : a.1 = k
    · simp [ha, ha ▸ hne]
    · by_cases hb : b.1 = k <;> simp [ha, hb]
  | trans h₁ h₂ ih₁ ih₂ => rw [ih₁ hn, ih₂ ((h₁.map Prod.fst).nodup_iff.mp hn)]

theorem find?_range'_bind {α β : Type} {f : Nat → Bool} {g : Nat → Option β} {q : α → Bool} {r : α → β} (l : List α) (n : Nat)
    (h : ∀ i a, l[i]? = some a → f (n + i) = q a ∧ g (n + i) = some (r a)) :
    ((List.range' n l.length).find? f).bind g = (l.find? q).map r := by
  induction l generalizing n with
  | nil => rfl
  | cons a l ih =>
    obtain ⟨hf, hg⟩ := h 0 a rfl
    rw [List.length_cons, List.range'_succ, List.find?_cons, List.find?_cons, ← hf, Nat.add_zero]
    cases hfn : f n with
    | true => simpa using hg
    | false =>
      refine ih (n + 1) fun i b hi => ?_
      have hnext := h (i + 1) b hi
      rwa [show n + (i + 1) = n + 1 + i by omega] at hnext

theorem countP_range {α : Type} {f : Nat → Bool} {q : α → Bool} {l : List α} (h : ∀ i a, l[i]? = some a → f i = q a)
    {n : Nat} (hn : n ≤ l.length) : (List.range n).countP f = (l.take n).countP q := by
  induction n with
  | zero => rfl
  | succ n ih =>
    have hlt : n < l.length := by omega
    rw [List.range_succ, List.countP_append, List.take_add_one, List.countP_append, ih (by omega),
      List.getElem?_eq_getElem hlt]
    simp [h n l[n] (List.getElem?_eq_getElem hlt)]

section
variable {V E : Type} (eval : Ast D → Except E V) (arg : Nat → Option (Ast D))

def evalArg : Option (Ast D) → Except (Option E) V
  | none => .error none
  | some arg => (eval arg).mapError some

def evalParams : Nat → List ParamEntry → Nat → Except (Option E) (List V)
  | _, _, 0 => .ok []
  | _, [], _ + 1 => .error none
  | index, entry :: spec, count + 1 =>
    if entry.scalarSource then evalParams (index + 1) spec (count + 1)
    else do
      let value ← evalArg eval (arg index)
      return value :: (← evalParams (index + 1) spec count)

def evalIndices : Nat → Nat → Except (Option E) (List V)
  | _, 0 => .ok []
  | index, count + 1 => do
    let value ← evalArg eval (arg index)
    return value :: (← evalIndices (index + 1) count)

/-- `cxpr_provider_eval_runtime_call_number_args`. A failure without an error of the evaluation is `none`. -/
def evalRuntimeCallNumberArgs (p : Provider) (call : CallSite D) (count capacity : Nat) : Except (Option E) (List V) :=
  if capacity < count then .error none
  else
    match p.exprParamSpecFor call.name with
    | some spec => evalParams eval (runtimeCallArg p call) 0 spec count
    | none => evalIndices eval (runtimeCallArg p call) 0 count

def numericParams (spec : List ParamEntry) (index : Nat) : List (ParamEntry × Nat) :=
  (spec.zipIdx index).filter fun entry => !entry.1.scalarSource

variable {eval arg}

theorem evalArg_eq_ok {o : Option (Ast D)} {v : V} (h : evalArg eval o = .ok v) : ∃ a, o = some a ∧ eval a = .ok v := by
  cases o with
  | none => cases h
  | some a =>
    cases ha : eval a with
    | error e =>
      rw [evalArg, ha] at h
      cases h
    | ok w =>
      rw [evalArg, ha] at h
      cases h
      exact ⟨a, rfl, ha⟩

variable {index : Nat}

theorem evalParams_eq_ok {spec : List ParamEntry} {count : Nat} {values : List V}
    (h : evalParams eval arg index spec count = .ok values) :
    values.length = count ∧ ∀ (k : Nat) (v : V), values[k]? = some v →
      ∃ a, ((numericParams spec index)[k]?.bind fun entry => arg entry.2) = some a ∧ eval a = .ok v := by
  induction spec generalizing index count values with
  | nil =>
    cases count with
    | zero =>
      cases h
      exact ⟨rfl, by simp⟩
    | succ count => cases h
  | cons entry spec ih =>
    cases count with
    | zero =>
      cases h
      exact ⟨rfl, by simp⟩
    | succ count =>
      rw [evalParams] at h
      rw [numericParams, List.zipIdx_cons, List.filter_cons]
      split at h
      · rename_i hsource
        rw [hsource]
        exact ih h
      · rename_i hnumber
        obtain ⟨value, hvalue, h⟩ := bind_eq_ok.mp h
        obtain ⟨rest, hrest, h⟩ := bind_eq_ok.mp h
        cases h
        obtain ⟨hlen, hall⟩ := ih hrest
        refine ⟨by rw [List.length_cons, hlen], fun k v hk => ?_⟩
        rw [Bool.not_eq_true] at hnumber
        rw [hnumber]
        cases k with
        | zero =>
          cases hk
          obtain ⟨a, ha, hv⟩ := evalArg_eq_ok hvalue
          exact ⟨a, by simpa using ha, hv⟩
        | succ k =>
          obtain ⟨a, ha, hv⟩ := hall k v (by simpa using hk)
          exact ⟨a, by simpa [numericParams] using ha, hv⟩

theorem evalIndices_eq_ok {count : Nat} {values : List V} (h : evalIndices eval arg index count = .ok values) :
    values.length = count ∧ ∀ (k : Nat) (v : V), values[k]? = some v → ∃ a, arg (index + k) = some a ∧ eval a = .ok v := by
  induction count generalizing index values with
  | zero =>
    cases h
    exact ⟨rfl, by simp⟩
  | succ count ih =>
    rw [evalIndices] at h
    obtain ⟨value, hvalue, h⟩ := bind_eq_ok.mp h
    obtain ⟨rest, hrest, h⟩ := bind_eq_ok.mp h
    cases h
    obtain ⟨hlen, hall⟩ := ih hrest
    refine ⟨by rw [List.length_cons, hlen], fun k v hk => ?_⟩
    cases k with
    | zero =>
      cases hk
      exact evalArg_eq_ok hvalue
    | succ k =>
      obtain ⟨a, ha, hv⟩ := hall k v (by simpa using hk)
      exact ⟨a, by rwa [show index + (k + 1) = index + 1 + k by omega], hv⟩

theorem evalParams_congr {arg' : Nat → Option (Ast D)} {spec : List ParamEntry} (count : Nat)
    (h : ∀ k entry, spec[k]? = some entry → arg (index + k) = arg' (index + k)) :
    evalParams eval arg index spec count = evalParams eval arg' index spec count := by
  induction spec generalizing index count with
  | nil => cases count <;> rfl
  | cons entry spec ih =>
    have htail : ∀ count, evalParams eval arg (index + 1) spec count = evalParams eval arg' (index + 1) spec count := by
      refine fun count => ih count fun k e hk => ?_
      have hnext := h (k + 1) e hk
      rwa [show index + (k + 1) = index + 1 + k by omega] at hnext
    cases count with
    | zero => rfl
    | succ count =>
      have harg : arg index = arg' index := h 0 entry rfl
      rw [evalParams, evalParams, htail, htail, harg]

theorem evalIndices_self {before list : List (Ast D)} :
    evalIndices (Except.ok (ε := E)) ((before ++ list)[·]?) before.length list.length = .ok list := by
  induction list generalizing before with
  | nil => rfl
  | cons a list ih =>
    have htail := @ih (before ++ [a])
    rw [List.append_assoc, List.length_append] at htail
    rw [List.length_cons, evalIndices, List.getElem?_append_right (Nat.le_refl _), Nat.sub_self]
    dsimp only [List.length_singleton, List.singleton_append] at htail
    rw [htail]
    rfl

end

/-! ### Calls with named arguments at the end -/

structure Arguments (D : Type) where
  positional : List (Ast D)
  named : List (String × Ast D)

namespace Arguments

def length (args : Arguments D) : Nat := args.positional.length + args.named.length

def call (args : Arguments D) (name : String) (field : Option String) : CallSite D :=
  ⟨name, args.positional ++ args.named.map Prod.snd,
    args.positional.map (fun _ => none) ++ args.named.map fun arg => some arg.1, field⟩

def bound (args : Arguments D) (index : Nat) (name : String) : Option (Ast D) :=
  args.positional[index]?.or ((args.named.find? fun arg => decide (arg.1 = name)).map Prod.snd)

variable (args : Arguments D) (name : String) (field : Option String)

theorem call_length : (args.call name field).args.length = args.length := by
  simp [call, length]

theorem argName_positional {i : Nat} (h : i < args.positional.length) : (args.call name field).argName i = none := by
  unfold CallSite.argName
  rw [if_pos (by rw [call_length, length]; omega)]
  simp [call, List.getElem?_append, h]

theorem argName_named {i : Nat} {arg : String × Ast D} (h : args.named[i]? = some arg) :
    (args.call name field).argName (args.positional.length + i) = some arg.1 := by
  have hlt := (List.getElem?_eq_some_iff.mp h).1
  unfold CallSite.argName
  rw [if_pos (by rw [call_length, length]; omega), call]
  dsimp only
  rw [List.getElem?_append_right (by simp)]
  simp [h]

theorem arg_named {i : Nat} {arg : String × Ast D} (h : args.named[i]? = some arg) :
    (args.call name field).args[args.positional.length + i]? = some arg.2 := by
  simp [call, List.getElem?_append, h]

theorem arg_positional {i : Nat} (h : i < args.positional.length) :
    (args.call name field).args[i]? = args.positional[i]? := by
  simp [call, List.getElem?_append, h]

theorem range_split : List.range args.length =
    List.range' 0 args.positional.length ++ List.range' args.positional.length args.named.length := by
  have h := @List.range'_append_1 0 args.positional.length args.named.length
  rw [Nat.zero_add] at h
  rw [List.range_eq_range', length, h]

theorem positionalCount_call : (args.call name field).positionalCount = args.positional.length := by
  unfold CallSite.positionalCount
  rw [call_length, range_split, List.takeWhile_append_of_pos]
  · cases hnamed : args.named with
    | nil => simp
    | cons arg named =>
      have hname : ((args.call name field).argName args.positional.length) = some arg.1 :=
        args.argName_named name field (i := 0) (by rw [hnamed]; rfl)
      rw [List.length_cons, List.range'_succ, List.takeWhile_cons, hname]
      simp
  · intro i hi
    rw [List.mem_range'_1] at hi
    rw [args.argName_positional name field (by omega)]
    rfl

theorem findNamedArg_call {key : String} (hkey : key ≠ "") :
    (((args.call name field).findNamedArg key).bind ((args.call name field).args[·]?)) =
      (args.named.find? fun arg => decide (arg.1 = key)).map Prod.snd := by
  unfold CallSite.findNamedArg
  rw [if_neg hkey, call_length, range_split, List.find?_append, List.find?_eq_none.mpr, Option.none_or]
  · refine find?_range'_bind _ _ fun i arg h => ⟨?_, args.arg_named name field h⟩
    simp [args.argName_named name field h]
  · intro i hi
    rw [List.mem_range'_1] at hi
    simp [args.argName_positional name field (show i < _ by omega)]

theorem runtimeCallArg_call {p : Provider} {spec : List ParamEntry} {index : Nat} {entry : ParamEntry}
    (hspec : p.exprParamSpecFor name = some spec) (h : spec[index]? = some entry) :
    runtimeCallArg p (args.call name field) index = args.bound index entry.name := by
  have hentry : (p.exprParamSpecFor (args.call name field).name).bind (·[index]?) = some entry := by
    rw [show (args.call name field).name = name from rfl, hspec]
    exact h
  unfold runtimeCallArg bound
  rw [hentry]
  dsimp only
  rw [positionalCount_call, call_length, range_split]
  by_cases hlt : index < args.positional.length
  · rw [if_pos hlt, arg_positional _ _ _ hlt, List.getElem?_eq_getElem hlt, Option.some_or]
  · rw [if_neg hlt, List.drop_left' (by simp), List.getElem?_eq_none (by omega), Option.none_or]
    refine find?_range'_bind _ _ fun i arg hi => ⟨?_, args.arg_named name field hi⟩
    simp [args.argName_named name field hi]

theorem runtimeCallArg_of_none {p : Provider} (hspec : p.exprParamSpecFor name = none) (index : Nat) :
    runtimeCallArg p (args.call name field) index = (args.call name field).args[index]? := by
  unfold runtimeCallArg
  rw [show (args.call name field).name = name from rfl, hspec]
  rfl

/-! ### What a call says about its arguments -/

def isText : Ast D → Bool
  | .string _ => true
  | _ => false

def counts (spec : Option (List ParamEntry)) (index : Nat) (name : Option String) : Bool :=
  match spec with
  | none => true
  | some spec =>
    let place := match name with
      | none => some index
      | some name => spec.findIdx? fun (entry : ParamEntry) => entry.name == name
      place.any fun index => !(spec[index]?.any ParamEntry.scalarSource)

def positionalSlots (spec : Option (List ParamEntry)) : List (Bool × Ast D) :=
  args.positional.mapIdx fun i arg => (counts spec i none, arg)

def namedSlots (spec : Option (List ParamEntry)) : List (Bool × Ast D) :=
  args.named.map fun arg => (counts spec 0 (some arg.1), arg.2)

def slots (spec : Option (List ParamEntry)) : List (Bool × Ast D) := args.positionalSlots spec ++ args.namedSlots spec

def numericCount (spec : Option (List ParamEntry)) : Nat := (args.slots spec).countP fun slot => slot.1 && !isText slot.2

def textCount (spec : Option (List ParamEntry)) : Nat := (args.slots spec).countP fun slot => slot.1 && isText slot.2

def scopeText (p : Provider) : Option String :=
  (scopeSpec p name).bind fun scope => scope.param.bind fun param =>
    (args.named.find? fun arg => decide (arg.1 = param)).bind fun arg => stringValue arg.2

/-- The scope of a call with the last argument `last`. -/
def scopeWith (p : Provider) (last : Ast D) : Option String := (args.scopeText name p).or (stringValue last)

variable {args name} {p : Provider}

theorem length_slots (spec : Option (List ParamEntry)) : (args.slots spec).length = args.length := by
  simp [slots, positionalSlots, namedSlots, length]

theorem counts_of_slot {spec : Option (List ParamEntry)} {i : Nat} {slot : Bool × Ast D}
    (h : (args.slots spec)[i]? = some slot) : slot.1 = counts spec i ((args.call name field).argName i) := by
  unfold slots at h
  by_cases hlt : i < args.positional.length
  · rw [List.getElem?_append_left (by simpa [positionalSlots] using hlt), positionalSlots, List.getElem?_mapIdx] at h
    obtain ⟨arg, -, rfl⟩ := Option.map_eq_some_iff.mp h
    rw [argName_positional _ _ _ hlt]
  · rw [List.getElem?_append_right (by simpa [positionalSlots] using hlt), namedSlots, List.getElem?_map] at h
    obtain ⟨arg, harg, rfl⟩ := Option.map_eq_some_iff.mp h
    have hname := args.argName_named name field harg
    rw [show args.positional.length + (i - (args.positionalSlots spec).length) = i by
      simp only [positionalSlots, List.length_mapIdx]
      omega] at hname
    rw [hname]
    rfl

theorem numericValueArgCount_call {raw : Nat} (h : raw ≤ args.length) :
    numericValueArgCount p (args.call name field) raw =
      ((args.slots (p.exprParamSpecFor name)).take raw).countP Prod.fst := by
  have hname : (args.call name field).name = name := rfl
  unfold numericValueArgCount
  rw [hname, call_length, Nat.min_eq_right h]
  have hlen := args.length_slots (p.exprParamSpecFor name)
  cases hspec : p.exprParamSpecFor name with
  | none =>
    rw [hspec] at hlen
    change raw = _
    rw [List.countP_eq_length.mpr, List.length_take]
    · omega
    · intro slot hslot
      obtain ⟨i, hi⟩ := List.mem_iff_getElem?.mp (List.mem_of_mem_take hslot)
      rw [@counts_of_slot _ args name field _ _ _ hi]
      rfl
  | some spec =>
    rw [hspec] at hlen
    dsimp only
    rw [@countP_range _ _ Prod.fst (args.slots (some spec)) _ _ (by omega), Nat.min_eq_left]
    · exact List.countP_le_length.trans (by rw [List.length_take]; omega)
    · intro i slot hi
      rw [@counts_of_slot _ args name field _ _ _ hi]
      unfold counts
      cases (args.call name field).argName i with
      | none => rfl
      | some argName =>
        dsimp only
        cases spec.findIdx? fun (entry : ParamEntry) => entry.name == argName <;> rfl

theorem scopeText_call :
    (do
      let scope ← scopeSpec p (args.call name field).name
      let param ← scope.param
      let i ← (args.call name field).findNamedArg param
      (args.call name field).args[i]?.bind stringValue) = args.scopeText name p := by
  unfold scopeText
  change ((scopeSpec p name).bind fun scope => _) = _
  congr 1
  funext scope
  cases hparam : scope.param with
  | none => rfl
  | some param =>
    have hne : param ≠ "" := by
      rintro rfl
      have := (Option.filter_eq_some_iff.mp hparam).2
      simp at this
    have hfind := args.findNamedArg_call name field hne
    change (((args.call name field).findNamedArg param).bind fun i => ((args.call name field).args[i]?).bind stringValue) = _
    rw [← Option.bind_assoc, hfind, Option.bind_map]
    rfl

theorem parse_of_nil (h : args.length = 0) : parseRuntimeCall p (args.call name field) = ⟨none, 0⟩ := by
  have hpositional : args.positional = [] := List.length_eq_zero_iff.mp (by rw [length] at h; omega)
  have hnamed : args.named = [] := List.length_eq_zero_iff.mp (by rw [length] at h; omega)
  have hnone : (args.scopeText name p).or ((args.call name field).args.getLast?.bind stringValue) = none := by
    simp [scopeText, call, hpositional, hnamed]
  unfold parseRuntimeCall
  dsimp only
  rw [scopeText_call, hnone]
  dsimp only
  rw [call_length, h, numericValueArgCount_call field (Nat.zero_le _)]
  rfl

theorem parse_of_last {last : Bool × Ast D} (h : (args.slots (p.exprParamSpecFor name)).getLast? = some last) :
    parseRuntimeCall p (args.call name field) = ⟨args.scopeWith name p last.2,
      (args.slots (p.exprParamSpecFor name)).countP Prod.fst -
        if (args.scopeWith name p last.2).isSome && last.1 then 1 else 0⟩ := by
  have hlen := args.length_slots (p.exprParamSpecFor name)
  have hlast : (args.call name field).args.getLast?.bind stringValue = stringValue last.2 := by
    have hargs : (args.call name field).args = (args.slots (p.exprParamSpecFor name)).map Prod.snd := by
      have hpositional : (args.positionalSlots (p.exprParamSpecFor name)).map Prod.snd = args.positional := by
        refine List.ext_getElem? fun i => ?_
        rw [List.getElem?_map, positionalSlots, List.getElem?_mapIdx, Option.map_map]
        exact Option.map_id'
      have hnamed : (args.namedSlots (p.exprParamSpecFor name)).map Prod.snd = args.named.map Prod.snd := by
        rw [namedSlots, List.map_map]
        rfl
      rw [slots, List.map_append, hpositional, hnamed, call]
    rw [hargs, List.getLast?_map, h]
    rfl
  obtain ⟨front, hfront⟩ := List.getLast?_eq_some_iff.mp h
  unfold parseRuntimeCall
  dsimp only
  rw [scopeText_call, hlast, call_length, scopeWith]
  cases (args.scopeText name p).or (stringValue last.2) with
  | none =>
    dsimp only
    rw [numericValueArgCount_call field (Nat.le_refl _), ← hlen, List.take_length]
    rfl
  | some scope =>
    dsimp only
    rw [numericValueArgCount_call field (Nat.sub_le _ _), ← hlen, hfront, List.length_append, List.length_singleton,
      Nat.add_sub_cancel, List.take_left' rfl, List.countP_append]
    cases hcounts : last.1 <;> simp [hcounts]

/-! ### The claim on the order of arguments -/

/-- The argument of the numeric parameter `k`; without parameters that is the argument `k` of the call. -/
def numeric (args : Arguments D) (spec : Option (List ParamEntry)) (k : Nat) : Option (Ast D) :=
  match spec with
  | some spec => (numericParams spec 0)[k]?.bind fun entry => args.bound entry.2 entry.1.name
  | none => (args.positional ++ args.named.map Prod.snd)[k]?

structure Reordered (args args' : Arguments D) : Prop where
  positional : args'.positional = args.positional
  named : args'.named.Perm args.named

/-- No order of the named arguments changes what is parsed or evaluated, the numeric arguments are counted, and each number
    is that of the argument of its parameter. -/
structure OrderIndependent (args : Arguments D) (p : Provider) (name : String) (field : Option String) : Prop where
  parsed : ∀ args', Reordered args args' → parseRuntimeCall p (args'.call name field) = parseRuntimeCall p (args.call name field)
  counted : (parseRuntimeCall p (args.call name field)).valueArgCount = args.numericCount (p.exprParamSpecFor name)
  evaluated : ∀ args', Reordered args args' → ∀ (V E : Type) (eval : Ast D → Except E V) (count capacity : Nat),
    evalRuntimeCallNumberArgs eval p (args'.call name field) count capacity =
      evalRuntimeCallNumberArgs eval p (args.call name field) count capacity
  valued : ∀ (V E : Type) (eval : Ast D → Except E V) (count capacity : Nat) (values : List V),
    evalRuntimeCallNumberArgs eval p (args.call name field) count capacity = .ok values →
      values.length = count ∧ ∀ (k : Nat) (v : V), values[k]? = some v →
        ∃ a, args.numeric (p.exprParamSpecFor name) k = some a ∧ eval a = .ok v

def lasts (args : Arguments D) (spec : Option (List ParamEntry)) : List (Bool × Ast D) :=
  if args.named.isEmpty then (args.positionalSlots spec).getLast?.toList else args.namedSlots spec

/-- Whichever argument is the last one, the call has the same scope, and a text literal counts exactly when there is a scope
    and that argument counts; then it is the only one. Where the provider tells no parameters there are no two different
    named arguments. -/
structure ScopeAlone (args : Arguments D) (p : Provider) (name : String) : Prop where
  scope : ∀ last ∈ args.lasts (p.exprParamSpecFor name), ∀ last' ∈ args.lasts (p.exprParamSpecFor name),
    args.scopeWith name p last.2 = args.scopeWith name p last'.2
  texts : ∀ last ∈ args.lasts (p.exprParamSpecFor name), args.textCount (p.exprParamSpecFor name) =
    if (args.scopeWith name p last.2).isSome && last.1 then 1 else 0
  named : p.exprParamSpecFor name = none → ∀ a ∈ args.named, ∀ b ∈ args.named, a.2 = b.2

section
variable {args' : Arguments D} {spec : Option (List ParamEntry)} {last : Bool × Ast D}

theorem Reordered.refl : Reordered args args := ⟨rfl, .refl _⟩

theorem Reordered.slots_perm (h : Reordered args args') : (args'.slots spec).Perm (args.slots spec) := by
  unfold slots positionalSlots namedSlots
  rw [h.positional]
  exact (List.Perm.refl _).append (h.named.map _)

theorem Reordered.length_eq (h : Reordered args args') : args'.length = args.length := by
  rw [← length_slots none, h.slots_perm.length_eq, length_slots]

theorem Reordered.find? (h : Reordered args args') (hn : (args.named.map Prod.fst).Nodup) (k : String) :
    (args'.named.find? fun a => decide (a.1 = k)) = args.named.find? fun a => decide (a.1 = k) :=
  (find?_perm h.named.symm hn k).symm

theorem Reordered.scopeWith (h : Reordered args args') (hn : (args.named.map Prod.fst).Nodup) (a : Ast D) :
    args'.scopeWith name p a = args.scopeWith name p a := by
  unfold Arguments.scopeWith scopeText
  simp only [h.find? hn]

theorem Reordered.lasts (h : Reordered args args') (hlast : last ∈ args'.lasts spec) : last ∈ args.lasts spec := by
  have hempty : args'.named.isEmpty = args.named.isEmpty := by
    rw [Bool.eq_iff_iff, List.isEmpty_iff, List.isEmpty_iff]
    exact ⟨fun hnil => List.nil_perm.mp (hnil ▸ h.named), fun hnil => List.perm_nil.mp (hnil ▸ h.named)⟩
  unfold Arguments.lasts positionalSlots namedSlots at *
  rw [hempty, h.positional] at hlast
  split at hlast
  · rename_i hnil
    rwa [if_pos hnil]
  · rename_i hcons
    rw [if_neg hcons]
    exact (h.named.map _).mem_iff.mp hlast

theorem last_mem_lasts (h : (args.slots spec).getLast? = some last) : last ∈ args.lasts spec := by
  unfold slots at h
  unfold Arguments.lasts
  split
  · rename_i hempty
    rw [namedSlots, List.isEmpty_iff.mp hempty, List.map_nil, List.append_nil] at h
    rw [h]
    exact List.mem_singleton_self _
  · rename_i hempty
    rw [List.getLast?_append_of_ne_nil] at h
    · exact List.mem_of_getLast? h
    · simpa [namedSlots] using hempty

theorem exists_reordered (h : last ∈ args.lasts spec) :
    ∃ args', Reordered args args' ∧ (args'.slots spec).getLast? = some last := by
  unfold Arguments.lasts at h
  split at h
  · rename_i hempty
    refine ⟨args, .refl, ?_⟩
    rw [slots, namedSlots, List.isEmpty_iff.mp hempty, List.map_nil, List.append_nil]
    exact Option.mem_toList.mp h
  · obtain ⟨a, ha, rfl⟩ := List.mem_map.mp h
    obtain ⟨before, behind, hnamed⟩ := List.append_of_mem ha
    refine ⟨⟨args.positional, before ++ behind ++ [a]⟩, ⟨rfl, ?_⟩, ?_⟩
    · rw [hnamed, List.append_assoc]
      exact (List.perm_append_comm).append_left before
    · simp [slots, namedSlots]

theorem countP_slots : (args.slots spec).countP Prod.fst = args.numericCount spec + args.textCount spec := by
  unfold numericCount textCount
  induction args.slots spec with
  | nil => rfl
  | cons slot slots ih =>
    simp only [List.countP_cons, ih]
    cases slot.1 <;> cases isText slot.2 <;> simp <;> omega

theorem valueArgCount_iff (h : (args.slots (p.exprParamSpecFor name)).getLast? = some last) :
    (parseRuntimeCall p (args.call name field)).valueArgCount = args.numericCount (p.exprParamSpecFor name) ↔
      args.textCount (p.exprParamSpecFor name) = if (args.scopeWith name p last.2).isSome && last.1 then 1 else 0 := by
  rw [parse_of_last field h, countP_slots]
  dsimp only
  split
  · rename_i htaken
    have hpos : 0 < (args.slots (p.exprParamSpecFor name)).countP Prod.fst :=
      List.countP_pos_iff.mpr ⟨last, List.mem_of_getLast? h, (Bool.and_eq_true _ _ ▸ htaken).2⟩
    rw [countP_slots] at hpos
    omega
  · omega

theorem Reordered.numericCount (h : Reordered args args') : args'.numericCount spec = args.numericCount spec :=
  h.slots_perm.countP_eq _

theorem Reordered.textCount (h : Reordered args args') : args'.textCount spec = args.textCount spec :=
  h.slots_perm.countP_eq _

theorem lasts_of_nil (h : args.slots spec = []) : args.lasts spec = [] := by
  refine List.eq_nil_iff_forall_not_mem.mpr fun l hl => ?_
  obtain ⟨args', hr, hlast⟩ := exists_reordered hl
  have hperm := @Reordered.slots_perm _ _ _ spec hr
  rw [h] at hperm
  rw [List.perm_nil.mp hperm] at hlast
  cases hlast

theorem ScopeAlone.parse (h : args.ScopeAlone p name) (hn : (args.named.map Prod.fst).Nodup) (hr : Reordered args args') :
    parseRuntimeCall p (args'.call name field) =
      ⟨(args.lasts (p.exprParamSpecFor name)).head?.bind fun l => args.scopeWith name p l.2,
        args.numericCount (p.exprParamSpecFor name)⟩ := by
  cases hlast : (args'.slots (p.exprParamSpecFor name)).getLast? with
  | none =>
    have hnil := List.getLast?_eq_none_iff.mp hlast
    have hperm := @Reordered.slots_perm _ _ _ (p.exprParamSpecFor name) hr
    rw [hnil] at hperm
    have hslots := List.nil_perm.mp hperm
    have hlen : args'.length = 0 := by rw [← length_slots (p.exprParamSpecFor name), hnil, List.length_nil]
    rw [parse_of_nil field hlen, lasts_of_nil hslots, Arguments.numericCount, hslots]
    rfl
  | some last =>
    have hmem := hr.lasts (last_mem_lasts hlast)
    have hcount : (parseRuntimeCall p (args'.call name field)).valueArgCount = args.numericCount (p.exprParamSpecFor name) := by
      rw [← hr.numericCount, valueArgCount_iff field hlast, hr.textCount, hr.scopeWith hn]
      exact h.texts last hmem
    have hscope : (parseRuntimeCall p (args'.call name field)).scopeValue = args.scopeWith name p last.2 := by
      rw [parse_of_last field hlast, hr.scopeWith hn]
    obtain ⟨first, rest, hlasts⟩ := List.exists_cons_of_ne_nil (List.ne_nil_of_mem hmem)
    have hfirst : first ∈ args.lasts (p.exprParamSpecFor name) := by
      rw [hlasts]
      exact List.mem_cons_self
    rw [h.scope last hmem first hfirst] at hscope
    rw [hlasts, List.head?_cons, Option.bind_some, ← hcount, ← hscope]

theorem Reordered.evaluated (hr : Reordered args args') (hn : (args.named.map Prod.fst).Nodup)
    (hnamed : p.exprParamSpecFor name = none → ∀ a ∈ args.named, ∀ b ∈ args.named, a.2 = b.2) {V E : Type}
    (eval : Ast D → Except E V) (count capacity : Nat) :
    evalRuntimeCallNumberArgs eval p (args'.call name field) count capacity =
      evalRuntimeCallNumberArgs eval p (args.call name field) count capacity := by
  unfold evalRuntimeCallNumberArgs
  rw [show (args'.call name field).name = name from rfl, show (args.call name field).name = name from rfl]
  split
  · rfl
  cases hspec : p.exprParamSpecFor name with
  | none =>
    have hargs : args'.named.map Prod.snd = args.named.map Prod.snd := by
      cases hlist : args.named with
      | nil =>
        have hperm := hr.named
        rw [hlist] at hperm
        rw [List.perm_nil.mp hperm]
      | cons first rest =>
        have hfirst : first ∈ args.named := hlist ▸ List.mem_cons_self
        have hall : ∀ a ∈ args.named.map Prod.snd, a = first.2 := by
          intro a ha
          obtain ⟨b, hb, rfl⟩ := List.mem_map.mp ha
          exact hnamed hspec b hb first hfirst
        rw [← hlist, List.eq_replicate_of_mem hall,
          List.eq_replicate_of_mem fun a ha => hall a ((hr.named.map _).mem_iff.mp ha), List.length_map, List.length_map,
          hr.named.length_eq]
    have hcall : (args'.call name field).args = (args.call name field).args := by
      simp only [call, hargs, hr.positional]
    dsimp only
    congr 1
    funext index
    rw [runtimeCallArg_of_none _ _ _ hspec, runtimeCallArg_of_none _ _ _ hspec, hcall]
  | some spec =>
    refine evalParams_congr count fun k entry hk => ?_
    rw [Nat.zero_add, runtimeCallArg_call _ _ _ hspec hk, runtimeCallArg_call _ _ _ hspec hk, bound, bound, hr.positional,
      hr.find? hn]

theorem evaluated_self (hspec : p.exprParamSpecFor name = none) :
    evalRuntimeCallNumberArgs (Except.ok (ε := Unit)) p (args.call name field) args.length args.length =
      .ok (args.call name field).args := by
  have harg : runtimeCallArg p (args.call name field) = ((args.call name field).args[·]?) :=
    funext fun index => args.runtimeCallArg_of_none name field hspec index
  have hself := @evalIndices_self D Unit [] (args.call name field).args
  rw [call_length] at hself
  unfold evalRuntimeCallNumberArgs
  rw [if_neg (Nat.lt_irrefl _), show (args.call name field).name = name from rfl, hspec]
  dsimp only
  rw [harg]
  exact hself

theorem valued_call {V E : Type} {eval : Ast D → Except E V} {count capacity : Nat} {values : List V}
    (h : evalRuntimeCallNumberArgs eval p (args.call name field) count capacity = .ok values) :
    values.length = count ∧ ∀ (k : Nat) (v : V), values[k]? = some v →
      ∃ a, args.numeric (p.exprParamSpecFor name) k = some a ∧ eval a = .ok v := by
  unfold evalRuntimeCallNumberArgs at h
  rw [show (args.call name field).name = name from rfl] at h
  split at h
  · cases h
  cases hspec : p.exprParamSpecFor name with
  | none =>
    rw [hspec] at h
    obtain ⟨hlen, hall⟩ := evalIndices_eq_ok h
    refine ⟨hlen, fun k v hk => ?_⟩
    obtain ⟨a, ha, hv⟩ := hall k v hk
    rw [Nat.zero_add, runtimeCallArg_of_none _ _ _ hspec] at ha
    exact ⟨a, ha, hv⟩
  | some spec =>
    rw [hspec] at h
    obtain ⟨hlen, hall⟩ := evalParams_eq_ok h
    refine ⟨hlen, fun k v hk => ?_⟩
    obtain ⟨a, ha, hv⟩ := hall k v hk
    refine ⟨a, ?_, hv⟩
    obtain ⟨entry, hentry, ha⟩ := Option.bind_eq_some_iff.mp ha
    have hmem := (List.mem_filter.mp (List.mem_of_getElem? hentry)).1
    rw [runtimeCallArg_call _ _ _ hspec (List.mem_zipIdx_iff_getElem?.mp hmem)] at ha
    rw [numeric, hentry]
    exact ha

end

/-- The order of the named arguments is without effect exactly when the scope is alone. -/
theorem orderIndependent_iff {args : Arguments D} {p : Provider} {name : String} {field : Option String}
    (hn : (args.named.map Prod.fst).Nodup) : args.OrderIndependent p name field ↔ args.ScopeAlone p name := by
  constructor
  · intro h
    have hparse : ∀ last ∈ args.lasts (p.exprParamSpecFor name),
        (parseRuntimeCall p (args.call name field)).scopeValue = args.scopeWith name p last.2 ∧
          args.textCount (p.exprParamSpecFor name) = if (args.scopeWith name p last.2).isSome && last.1 then 1 else 0 := by
      intro last hlast
      obtain ⟨args', hr, hslots⟩ := exists_reordered hlast
      have hsame := h.parsed args' hr
      have hcount := h.counted
      rw [← hsame] at hcount
      rw [← hr.numericCount, valueArgCount_iff field hslots, hr.textCount, hr.scopeWith hn] at hcount
      refine ⟨?_, hcount⟩
      rw [← hsame, parse_of_last field hslots, hr.scopeWith hn]
    refine ⟨fun last hlast last' hlast' => ?_, fun last hlast => (hparse last hlast).2, ?_⟩
    · rw [← (hparse last hlast).1, (hparse last' hlast').1]
    · intro hspec a ha b hb
      have hheads : ∀ c ∈ args.named, ∃ rest, (args.call name field).args = args.positional ++ c.2 :: rest := by
        intro c hc
        obtain ⟨before, behind, hnamed⟩ := List.append_of_mem hc
        have hr : Reordered args ⟨args.positional, c :: (before ++ behind)⟩ := ⟨rfl, hnamed ▸ List.perm_middle.symm⟩
        have hsame := h.evaluated _ hr (Ast D) Unit Except.ok args.length args.length
        rw [evaluated_self field hspec, ← hr.length_eq, evaluated_self field hspec] at hsame
        exact ⟨(before ++ behind).map Prod.snd, (Except.ok.inj hsame).symm⟩
      obtain ⟨as, has⟩ := hheads a ha
      obtain ⟨bs, hbs⟩ := hheads b hb
      exact (List.cons.inj (List.append_cancel_left (has.symm.trans hbs))).1
  · intro h
    refine ⟨fun args' hr => ?_, ?_, fun args' hr V E eval => hr.evaluated field hn h.named eval,
      fun V E eval count capacity values => valued_call field⟩
    · rw [h.parse field hn hr, h.parse field hn .refl]
    · rw [h.parse field hn .refl]

/-- A function `f(x)` with the scope `tf`. -/
def scopedF : Provider :=
  ⟨"provider", fun _ => some ⟨0, 0, 1, .number, false, false, some ⟨some "tf", true⟩⟩, fun _ => none, fun _ => some [⟨"x", false⟩]⟩

theorem orderIndependent_positional :
    (⟨[.number 1], [("tf", .string "1h")]⟩ : Arguments Int).OrderIndependent scopedF "f" none :=
  (orderIndependent_iff (by decide)).mpr ⟨by decide, by decide, fun h => by cases h⟩

theorem not_orderIndependent : ¬∀ (p : Provider) (name : String) (field : Option String) (args : Arguments Int),
    (args.named.map Prod.fst).Nodup → args.OrderIndependent p name field := by
  intro h
  have hparsed := (h scopedF "f" none ⟨[], [("x", .number 1), ("tf", .string "1h")]⟩ (by decide)).parsed
    ⟨[], [("tf", .string "1h"), ("x", .number 1)]⟩ ⟨rfl, .swap ..⟩
  exact absurd (congrArg RuntimeCall.valueArgCount hparsed) (by decide)

end Arguments

end Cxpr.Source
