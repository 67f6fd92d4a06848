import Mathlib.Data.List.Induction
import Cxpr.Eval.Agree

/-! Historical numeric sources (`src/history.c`). A lookback `target[k]` on a target that mentions a source evaluates the
    target on an overlay in which the sources it mentions have the value they had `k` positions before the cursor. -/

namespace Cxpr
open Eval
variable {D : Type}

inductive BoundsPolicy where
  | error | clampFirst | legacyNan
  deriving DecidableEq, Repr

/-- `cxpr_history_numeric_source`: the numbers behind `base`, `stride` and `count`. -/
structure HistorySource (D : Type) where
  name : String
  values : List D

/-- The checks of `cxpr_register_history_numeric_sources` on its sources. -/
def sourcesAccepted (sources : List (HistorySource D)) : Bool :=
  !sources.isEmpty && sources.all (fun source => source.name != "" && !source.values.isEmpty) &&
    decide (sources.map (·.name)).Nodup

/-- `cxpr_history_numeric_state` but for the cursor. The resolver allocates a slot for every mention of a name and sets
    one for every name: `residue` is what the slots behind read as, for a target. -/
structure History (D : Type) where
  sources : List (HistorySource D)
  policy : BoundsPolicy
  residue : Ast D → Nat → String
  accepted : sourcesAccepted sources = true

namespace History

def findSource (h : History D) (name : String) : Option (HistorySource D) := h.sources.find? (·.name == name)

def names (h : History D) : Set String := { name | (h.findSource name).isSome }

def valueAt (h : History D) (nan : D) (source : HistorySource D) (cursor offset : Int) : Except Error D :=
  if cursor < 0 ∨ source.values.length ≤ cursor then
    match h.policy with
    | .legacyNan => .ok nan
    | _ => .error ⟨.indexOutOfRange, "History cursor is out of range"⟩
  else if cursor - offset < 0 then
    match h.policy with
    | .clampFirst => .ok (source.values.getD 0 nan)
    | .legacyNan => .ok nan
    | .error => .error ⟨.indexOutOfRange, "History offset is out of range"⟩
  else .ok (source.values.getD (cursor - offset).toNat nan)

/-- The reference array of `cxpr_history_numeric_resolve`. -/
def slots (h : History D) (target : Ast D) : List String :=
  target.references ++ (List.range (target.mentions.length - target.references.length)).map (h.residue target)

/-- The loop of `cxpr_history_numeric_resolve` that stores the shifted values. -/
def bindSources (h : History D) (nan : D) (cursor offset : Int) : List String → Frame D → Except Error (Frame D)
  | [], shifted => .ok shifted
  | name :: rest, shifted =>
    match h.findSource name with
    | none => h.bindSources nan cursor offset rest shifted
    | some source => do
      h.bindSources nan cursor offset rest (shifted.set source.name (← h.valueAt nan source cursor offset))

/-- `cxpr_registry_select_index_capability`. -/
def serves (h : History D) (target : Ast D) : Bool :=
  match target with
  | .identifier name => (h.findSource name).isSome
  | target => target.references.any fun name => (h.findSource name).isSome

variable [Double D]

/-- The offset that `cxpr_history_numeric_resolve` takes from the index node it is given. -/
def offsetOf (value : D) : Except Error Int :=
  if !Double.isfinite value || Double.lt value Double.zero || Double.ne (Double.floor value) value ||
      Double.gt value (Double.ofNat (2 ^ 63 - 1)) then
    .error ⟨.invalidIndex, "History offset must be a finite non-negative integer"⟩
  else .ok (Double.toSize value)

/-- `cxpr_history_numeric_index`: the resolver on the offset as a number node. `eval` is `cxpr_eval_ast`. -/
def resolve (h : History D) (nan : D) (cursor : Int) (eval : Ast D → Context D → Except Error (Value D)) (target : Ast D)
    (index : Int) (ctx : Context D) : Except Error (Value D) := do
  if !(h.slots target).any fun name => (h.findSource name).isSome then
    throw ⟨.typeMismatch, "Index capability failed to resolve its owned target"⟩
  else
    let offset ← offsetOf (Double.ofNat index.toNat : D)
    let shifted ← h.bindSources nan cursor offset (h.slots target) {}
    eval target (shifted :: ctx)

/-- The registry after `cxpr_register_history_numeric_sources`, with the cursor at a position. The resolver evaluates its
    target with the registry itself; `levels` bounds how deep, as the C stack does. -/
def registry (h : History D) (nan : D) (base : Registry D) (cursor : Int) (depth : Nat) : Nat → Registry D
  | 0 =>
    { base with
      hasIndexCapabilities := true
      selectIndexCapability := fun target => .ok <|
        if h.serves target then
          some ⟨.number, fun _ _ _ => .error ⟨.stackOverflow, "Too many nested calls"⟩⟩
        else none }
  | levels + 1 =>
    { base with
      hasIndexCapabilities := true
      selectIndexCapability := fun target => .ok <|
        if h.serves target then
          some ⟨.number, h.resolve nan cursor fun ast ctx =>
            (evalAst (h.registry nan base cursor depth levels) depth ast ctx).map Prod.fst⟩
        else none }

end History

namespace Frame

variable {f : Frame D}

theorem getTyped_set_self (hscope : f.expressionScope = none) (name : String) (v : D) :
    (f.set name v).getTyped name = some (.number v) := by
  simp [getTyped, set, hscope]

theorem getTyped_set_of_ne {name n : String} (h : n ≠ name) (v : D) :
    (f.set name v).getTyped n = f.getTyped n := by
  simp [getTyped, set, AList.lookup_erase_ne h, AList.lookup_insert_ne h]

structure VarsOnly (f : Frame D) : Prop where
  params : ∀ n, f.params.lookup n = none
  boolParams : ∀ n, f.boolParams.lookup n = none
  int64Params : ∀ n, f.int64Params.lookup n = none
  stringParams : ∀ n, f.stringParams.lookup n = none
  arrayParams : ∀ n, f.arrayParams.lookup n = none
  structs : ∀ n, f.structs.lookup n = none
  expressionScope : f.expressionScope = none
  idle : f.evalMemoDepth = 0

theorem varsOnly_empty : VarsOnly ({} : Frame D) := by
  constructor <;> intros <;> rfl

theorem VarsOnly.set (h : f.VarsOnly) (name : String) (v : D) : (f.set name v).VarsOnly where
  params := h.params
  boolParams := h.boolParams
  int64Params := h.int64Params
  stringParams := h.stringParams
  arrayParams := h.arrayParams
  structs n := by
    by_cases hn : n = name
    · rw [hn]
      exact AList.lookup_erase _ _
    · exact (AList.lookup_erase_ne hn).trans (h.structs n)
  expressionScope := h.expressionScope
  idle := h.idle

theorem VarsOnly.getParamTyped (h : f.VarsOnly) (parent : Context D) (name : String) :
    Context.getParamTyped (f :: parent) name =
      ((parent.getParam name).map .number <|> parent.getParamTyped name) := by
  have hdotted : f.dottedParam name = none := by
    unfold dottedParam
    split
    · split
      · rfl
      · rw [h.structs]
        rfl
    · rfl
  rw [Context.getParamTyped, Context.getParam, h.boolParams, h.int64Params, h.stringParams, h.arrayParams, h.structs,
    hdotted, h.params]
  rfl

end Frame

namespace History
variable (h : History D) (nan : D)

theorem findSource_name {name : String} {source : HistorySource D} (hfind : h.findSource name = some source) :
    source.name = name := by
  simpa using List.find?_some hfind

variable {cursor offset : Int} {names : List String}

theorem bindSources_eq_ok {f shifted : Frame D} (hf : f.VarsOnly)
    (hbind : h.bindSources nan cursor offset names f = .ok shifted) :
    shifted.VarsOnly ∧ (∀ n ∉ names, shifted.getTyped n = f.getTyped n) ∧
      ∀ n ∈ names, ∀ source, h.findSource n = some source →
        ∃ v, h.valueAt nan source cursor offset = .ok v ∧ shifted.getTyped n = some (.number v) := by
  induction names generalizing f with
  | nil =>
    cases hbind
    exact ⟨hf, fun n _ => rfl, fun n hn => absurd hn (by simp)⟩
  | cons name rest ih =>
    rw [bindSources] at hbind
    cases hfind : h.findSource name with
    | none =>
      rw [hfind] at hbind
      obtain ⟨hvars, hout, hin⟩ := ih hf hbind
      refine ⟨hvars, fun n hn => hout n fun hrest => hn (List.mem_cons_of_mem _ hrest), ?_⟩
      intro n hn source hsource
      rcases List.mem_cons.mp hn with rfl | hrest
      · rw [hfind] at hsource
        cases hsource
      · exact hin n hrest source hsource
    | some source =>
      rw [hfind] at hbind
      obtain ⟨v, hv, hbind⟩ := bind_eq_ok.mp hbind
      rw [h.findSource_name hfind] at hbind
      obtain ⟨hvars, hout, hin⟩ := ih (hf.set name v) hbind
      refine ⟨hvars, ?_, ?_⟩
      · intro n hn
        have hne : n ≠ name := fun heq => hn (by simp [heq])
        rw [hout n fun hrest => hn (List.mem_cons_of_mem _ hrest), Frame.getTyped_set_of_ne hne]
      · intro n hn source' hsource
        by_cases hrest : n ∈ rest
        · exact hin n hrest source' hsource
        · rcases List.mem_cons.mp hn with rfl | hmem
          · rw [hfind] at hsource
            cases hsource
            exact ⟨v, hv, by rw [hout _ hrest, Frame.getTyped_set_self hf.expressionScope]⟩
          · exact absurd hmem hrest

theorem bindSources_congr {cursor' offset' : Int} (f : Frame D)
    (hvalue : ∀ n ∈ names, ∀ source, h.findSource n = some source →
      h.valueAt nan source cursor offset = h.valueAt nan source cursor' offset') :
    h.bindSources nan cursor offset names f = h.bindSources nan cursor' offset' names f := by
  induction names generalizing f with
  | nil => rfl
  | cons name rest ih =>
    rw [bindSources, bindSources]
    cases hfind : h.findSource name with
    | none => exact ih f fun n hn => hvalue n (List.mem_cons_of_mem _ hn)
    | some source =>
      dsimp only
      rw [hvalue name (by simp) source hfind]
      cases h.valueAt nan source cursor' offset' with
      | error e => rfl
      | ok v => exact ih _ fun n hn => hvalue n (List.mem_cons_of_mem _ hn)

theorem bindSources_total (f : Frame D)
    (hvalue : ∀ n ∈ names, ∀ source, h.findSource n = some source → ∃ v, h.valueAt nan source cursor offset = .ok v) :
    ∃ shifted, h.bindSources nan cursor offset names f = .ok shifted := by
  induction names generalizing f with
  | nil => exact ⟨f, rfl⟩
  | cons name rest ih =>
    rw [bindSources]
    cases hfind : h.findSource name with
    | none => exact ih f fun n hn => hvalue n (List.mem_cons_of_mem _ hn)
    | some source =>
      obtain ⟨v, hv⟩ := hvalue name (by simp) source hfind
      dsimp only
      rw [hv]
      exact ih _ fun n hn => hvalue n (List.mem_cons_of_mem _ hn)

end History

namespace Plain
variable {reg : Registry D} {S T : Set String} {ast : Ast D}

theorem mem_mentionsList {es : List (Ast D)} {n : String} : n ∈ Ast.mentionsList es ↔ ∃ e ∈ es, n ∈ e.mentions := by
  induction es with
  | nil => simp [Ast.mentionsList]
  | cons e es ih => simp [Ast.mentionsList, ih]

theorem mentions_mem (h : Plain reg S ast) : ∀ n ∈ ast.mentions, n ∈ S := by
  induction h with
  | number | int64 | bool | string | param => simp [Ast.mentions]
  | identifier hname => simpa [Ast.mentions] using hname
  | array hes ih =>
    intro n hn
    obtain ⟨e, he, hn⟩ := mem_mentionsList.mp hn
    exact ih e he n hn
  | call hname hargs argNames ih =>
    intro n hn
    obtain ⟨a, ha, hn⟩ := mem_mentionsList.mp hn
    exact ih a ha n hn
  | unary op ha ih => exact ih
  | binary op hl hr ihl ihr =>
    intro n hn
    rcases List.mem_append.mp hn with hn | hn
    · exact ihl n hn
    · exact ihr n hn
  | ternary hc ht he ihc iht ihe =>
    intro n hn
    rcases List.mem_append.mp hn with hn | hn
    · rcases List.mem_append.mp hn with hn | hn
      · exact ihc n hn
      · exact iht n hn
    · exact ihe n hn
  | index hnone ht hi iht ihi =>
    intro n hn
    rcases List.mem_append.mp hn with hn | hn
    · exact iht n hn
    · exact ihi n hn

theorem of_mentions {reg' : Registry D} (hfind : ∀ name, reg'.find name = reg.find name) (h : Plain reg S ast)
    (hmem : ∀ n ∈ ast.mentions, n ∈ T) : Plain reg' T ast := by
  induction h with
  | number v => exact .number v
  | int64 v => exact .int64 v
  | bool v => exact .bool v
  | string v => exact .string v
  | param name => exact .param name
  | identifier hname => exact .identifier (hmem _ (by simp [Ast.mentions]))
  | array hes ih => exact .array fun e he => ih e he fun n hn => hmem n (mem_mentionsList.mpr ⟨e, he, hn⟩)
  | call hname hargs argNames ih =>
    exact .call (fun entry hentry => hname entry ((hfind _).symm.trans hentry))
      (fun a ha => ih a ha fun n hn => hmem n (mem_mentionsList.mpr ⟨a, ha, hn⟩)) argNames
  | unary op ha ih => exact .unary op (ih hmem)
  | binary op hl hr ihl ihr =>
    exact .binary op (ihl fun n hn => hmem n (by simp [Ast.mentions, hn]))
      (ihr fun n hn => hmem n (by simp [Ast.mentions, hn]))
  | ternary hc ht he ihc iht ihe =>
    exact .ternary (ihc fun n hn => hmem n (by simp [Ast.mentions, hn]))
      (iht fun n hn => hmem n (by simp [Ast.mentions, hn])) (ihe fun n hn => hmem n (by simp [Ast.mentions, hn]))
  | index hnone ht hi iht ihi =>
    exact .index hnone (iht fun n hn => hmem n (by simp [Ast.mentions, hn]))
      (ihi fun n hn => hmem n (by simp [Ast.mentions, hn]))

end Plain

namespace History
variable [Double D]

def lookbacks (b : Ast D) (ks : List Nat) : Ast D :=
  ks.foldl (fun t k => .index t (.number (Double.ofNat k))) b

theorem lookbacks_concat (b : Ast D) (ks : List Nat) (k : Nat) :
    lookbacks b (ks ++ [k]) = .index (lookbacks b ks) (.number (Double.ofNat k)) := by
  simp [lookbacks]

structure Exact (D : Type) [Double D] (k : Nat) : Prop where
  offset : capabilityOffset (.number (Double.ofNat k : D)) = .ok (k : Int)
  literal : k < 2 ^ 32 → Ir.lookbackLiteralOffset (.number (Double.ofNat k : D)) = some k

/-- Literal offsets, with sums that are doubles and, if there is more than one, an `unsigned`. -/
structure Offsets (D : Type) [Double D] (ks : List Nat) : Prop where
  exact : ∀ k ∈ ks, Exact D k
  total : ∀ init, init <+: ks → Exact D init.sum
  fits : 2 ≤ ks.length → ks.sum < 2 ^ 32

variable {ks : List Nat} {t : Ast D} {ctx : Context D}

theorem Offsets.of_concat {k : Nat} (h : Offsets D (ks ++ [k])) : Offsets D ks where
  exact j hj := h.exact j (List.mem_append_left _ hj)
  total init hinit := h.total init (hinit.trans (List.prefix_append _ _))
  fits hlength := by
    have hsum := h.fits (by simp; omega)
    rw [List.sum_append, List.sum_singleton] at hsum
    omega

/-- Expressions of sources, literals, parameters and host functions that have no lookback inside and mention a source,
    and no source twice. -/
structure Shiftable (h : History D) (base : Registry D) (b : Ast D) : Prop where
  plain : Plain base h.names b
  nodup : b.mentions.Nodup
  source : b.mentions ≠ []

variable {h : History D} {base : Registry D} {b : Ast D}

theorem Shiftable.not_literal (hb : h.Shiftable base b) :
    ∀ t i, b = .index t i → Ir.lookbackLiteralOffset i = none := by
  intro t i heq
  have hplain := hb.plain
  have hsource := hb.source
  rw [heq] at hplain hsource
  rcases hplain with _ | _ | _ | _ | _ | _ | _ | _ | _ | _ | _ | ⟨hnone, ht, hi⟩
  cases i with
  | number v =>
    refine absurd ?_ hsource
    rw [Ast.mentions, hnone]
    rfl
  | _ => rfl

theorem Shiftable.flatten (hb : h.Shiftable base b) (offset : Nat) :
    ∃ complete, flattenLookback offset b = (offset, b, complete) := by
  have hinner := hb.not_literal
  cases b with
  | index t i =>
    refine ⟨false, ?_⟩
    simp only [flattenLookback, hinner t i rfl]
    rfl
  | _ => exact ⟨true, rfl⟩

theorem Shiftable.flatten_lookbacks (hb : h.Shiftable base b) (hexact : ∀ k ∈ ks, Exact D k)
    (offset : Nat) (hfits : offset + ks.sum < 2 ^ 32) :
    ∃ complete, flattenLookback offset (lookbacks b ks) = (offset + ks.sum, b, complete) := by
  induction ks using List.reverseRecOn generalizing offset with
  | nil => exact hb.flatten offset
  | append_singleton ks k ih =>
    rw [List.sum_append, List.sum_singleton] at hfits
    have hk : Ir.lookbackLiteralOffset (.number (Double.ofNat k : D)) = some k :=
      (hexact k (by simp)).literal (by omega)
    have hadd : Ir.lookbackAddUnsigned offset k = some (offset + k) := by
      unfold Ir.lookbackAddUnsigned
      rw [if_neg (by omega)]
    obtain ⟨complete, hflat⟩ := ih (fun j hj => hexact j (by simp [hj])) (offset + k) (by omega)
    refine ⟨complete, ?_⟩
    rw [lookbacks_concat]
    simp only [flattenLookback, hk, Option.bind_some, hadd]
    rw [hflat, List.sum_append, List.sum_singleton]
    congr 1
    omega

theorem Shiftable.parts (hb : h.Shiftable base b) {k : Nat} (hks : Offsets D (ks ++ [k])) :
    (lookbackParts (lookbacks b ks) (.number (Double.ofNat k : D))).2.1 = b ∧
      capabilityIndex (lookbacks b ks) (.number (Double.ofNat k)) (pure (.number (Double.ofNat k))) =
        pure (.number (Double.ofNat (ks ++ [k]).sum)) := by
  have hliteral : k < 2 ^ 32 → Ir.lookbackLiteralOffset (.number (Double.ofNat k : D)) = some k :=
    (hks.exact k (by simp)).literal
  rcases ks.eq_nil_or_concat' with rfl | ⟨init, last, rfl⟩
  · -- one offset is not summed up
    constructor
    · unfold lookbackParts
      split
      · obtain ⟨complete, hflat⟩ := hb.flatten _
        exact congrArg (·.2.1) hflat
      · rfl
    · unfold capabilityIndex
      rw [if_neg]
      · simp
      · intro hmoved
        rw [Bool.and_eq_true] at hmoved
        have hinner := hb.not_literal
        obtain ⟨-, hstep⟩ := hmoved
        rw [lookbacks, List.foldl_nil] at hstep
        cases b with
        | index t i =>
          dsimp only at hstep
          rw [hinner t i rfl] at hstep
          cases hstep
        | _ => cases hstep
  · have hfits : (init ++ [last] ++ [k]).sum < 2 ^ 32 := hks.fits (by simp)
    have hsum : (init ++ [last] ++ [k]).sum = k + (init ++ [last]).sum := by
      rw [List.sum_append, List.sum_singleton, Nat.add_comm]
    obtain ⟨complete, hflat⟩ := hb.flatten_lookbacks
      (fun j hj => hks.exact j (List.mem_append_left _ hj)) k (hsum ▸ hfits)
    have hparts : lookbackParts (lookbacks b (init ++ [last])) (.number (Double.ofNat k : D)) =
        ((init ++ [last] ++ [k]).sum, b, complete) := by
      unfold lookbackParts
      rw [hliteral (by omega), hsum]
      exact hflat
    refine ⟨congrArg (·.2.1) hparts, ?_⟩
    unfold capabilityIndex
    rw [if_pos, hparts]
    have hle : k + last < 2 ^ 32 := by
      simp only [List.sum_append, List.sum_singleton] at hfits
      omega
    have hlast : Ir.lookbackLiteralOffset (.number (Double.ofNat last : D)) = some last :=
      (hks.exact last (by simp)).literal (by omega)
    have hadd : Ir.lookbackAddUnsigned k last = some (k + last) := by
      unfold Ir.lookbackAddUnsigned
      rw [if_neg (by omega)]
    rw [lookbacks_concat, hliteral (by omega)]
    simp [isIndex, hlast, hadd]

omit [Double D] in
theorem serves_of_mention {n : String} (hn : n ∈ t.mentions) (hname : n ∈ h.names) : h.serves t = true := by
  have hany : (t.references.any fun name => (h.findSource name).isSome) = true :=
    List.any_eq_true.mpr ⟨n, Ast.mem_references.mpr hn, hname⟩
  cases t with
  | identifier name =>
    obtain rfl : n = name := by simpa [Ast.mentions] using hn
    exact hname
  | _ => exact hany

omit [Double D] in
theorem not_serves_of_mentions (hnone : t.mentions = []) : h.serves t = false := by
  cases t with
  | identifier name => cases hnone
  | _ => simp [serves, Ast.references, hnone]

theorem mentions_lookbacks {n : String} (hn : n ∈ b.mentions) (ks : List Nat) : n ∈ (lookbacks b ks).mentions := by
  induction ks using List.reverseRecOn with
  | nil => exact hn
  | append_singleton ks k ih =>
    rw [lookbacks_concat, Ast.mentions]
    exact List.mem_append_left _ ih

theorem registry_find (nan : D) (cursor : Int) (depth levels : Nat) (name : String) :
    (h.registry nan base cursor depth levels).find name = base.find name := by
  cases levels <;> rfl

theorem registry_resolver (hbase : base.lookbackResolver = none) (nan : D) (cursor : Int) (depth levels : Nat) :
    (h.registry nan base cursor depth levels).lookbackResolver = none := by
  cases levels <;> exact hbase

theorem registry_unserved (nan : D) (cursor : Int) (depth levels : Nat) (hnone : t.mentions = []) :
    (h.registry nan base cursor depth levels).selectIndexCapability t = .ok none := by
  have hserves : h.serves t = false := not_serves_of_mentions hnone
  cases levels <;> simp [registry, hserves]

theorem registry_sameFunctions (hbase : base.lookbackResolver = none) (nan : D) (cursor cursor' : Int)
    (depth levels levels' : Nat) :
    (h.registry nan base cursor depth levels).SameFunctions (h.registry nan base cursor' depth levels') where
  find name := by rw [registry_find, registry_find]
  unserved t hnone := registry_unserved nan cursor depth levels hnone
  unserved' t hnone := registry_unserved nan cursor' depth levels' hnone
  lookbackResolver := registry_resolver hbase nan cursor depth levels
  lookbackResolver' := registry_resolver hbase nan cursor' depth levels'

omit [Double D] in
theorem Shiftable.slots (hb : h.Shiftable base b) : h.slots b = b.mentions := by
  unfold History.slots
  rw [Ast.references_of_nodup hb.nodup]
  simp

theorem offsetOf_exact {k : Nat} (hk : Exact D k) : offsetOf (Double.ofNat k : D) = .ok (k : Int) := by
  have hoffset := hk.offset
  unfold capabilityOffset at hoffset
  dsimp only at hoffset
  unfold offsetOf
  split at hoffset
  · cases hoffset
  · rename_i hinteger
    rw [if_neg hinteger]
    exact hoffset

omit [Double D] in
theorem getTyped_memoEnter (ctx : Context D) (name : String) : (memoEnter ctx).getTyped name = ctx.getTyped name := by
  cases ctx <;> rfl

theorem resolveCapability_number {capability : IndexCapability D} {d : D} {offset : Int} (c : Context D)
    (hoffset : capabilityOffset (.number d) = .ok offset) :
    resolveCapability capability t (pure (.number d)) c = (capability.resolve t offset c).map fun v => (v, c) := by
  unfold resolveCapability
  rw [pure_bind, hoffset, Stateful.lift_ok_bind]
  show (liftM (capability.resolve t offset c) : EvalM D (Value D)) c = _
  cases capability.resolve t offset c <;> rfl

theorem evalAst_lookbacks (hbase : base.lookbackResolver = none) (hb : h.Shiftable base b) {k : Nat}
    (hks : Offsets D (ks ++ [k])) (nan : D) (cursor : Int) (depth levels inner : Nat)
    (harray : ∀ name ∈ b.mentions, ∀ values, ctx.getTyped name ≠ some (.array values)) :
    (evalAst (h.registry nan base cursor inner (levels + 1)) (depth + 1)
      (.index (lookbacks b ks) (.number (Double.ofNat k))) ctx).map Prod.fst =
    (h.bindSources nan cursor (ks ++ [k]).sum b.mentions {} >>= fun shifted =>
      (evalAst (h.registry nan base cursor inner levels) inner b (shifted :: memoEnter ctx)).map Prod.fst) := by
  obtain ⟨n, hn⟩ := List.exists_mem_of_ne_nil _ hb.source
  have hname : n ∈ h.names := hb.plain.mentions_mem n hn
  have hselect : ∀ t : Ast D, n ∈ t.mentions →
      (h.registry nan base cursor inner (levels + 1)).selectIndexCapability t =
        .ok (some ⟨.number, h.resolve nan cursor fun ast ctx =>
          (evalAst (h.registry nan base cursor inner levels) inner ast ctx).map Prod.fst⟩) := by
    intro t ht
    simp only [registry, serves_of_mention ht hname, if_true]
  have htype : typecheck (.index (lookbacks b ks) (.number (Double.ofNat k)))
      (h.registry nan base cursor inner (levels + 1)) = .ok (some .number) := by
    unfold typecheck
    rw [Typecheck.infer]
    show Typecheck.inferIndex _ _ _ _ (.ok (some .number)) = _
    unfold Typecheck.inferIndex
    rw [hselect _ (mentions_lookbacks hn ks)]
    rfl
  have hindex : evalNode (h.registry nan base cursor inner (levels + 1))
      (evalDepth (h.registry nan base cursor inner (levels + 1)) depth)
      (.index (lookbacks b ks) (.number (Double.ofNat k))) (memoEnter ctx) =
      (h.resolve nan cursor (fun ast ctx =>
        (evalAst (h.registry nan base cursor inner levels) inner ast ctx).map Prod.fst) b (ks ++ [k]).sum
          (memoEnter ctx)).map fun v => (v, memoEnter ctx) := by
    have hnumber : evalNode (h.registry nan base cursor inner (levels + 1))
        (evalDepth (h.registry nan base cursor inner (levels + 1)) depth) (.number (Double.ofNat k)) =
        pure (.number (Double.ofNat k)) := rfl
    rw [evalNode, evalIndex_apply (registry_resolver hbase nan cursor inner (levels + 1)), hnumber, (hb.parts hks).1,
      hselect b hn]
    · show resolveCapability _ (lookbackParts (lookbacks b ks) (.number (Double.ofNat k))).2.1
        (capabilityIndex (lookbacks b ks) (.number (Double.ofNat k)) (pure (.number (Double.ofNat k)))) _ = _
      rw [(hb.parts hks).1, (hb.parts hks).2]
      exact resolveCapability_number _ (hks.total _ (List.prefix_refl _)).offset
    · intro name values heq
      rw [getTyped_memoEnter]
      refine harray name ?_ values
      rcases ks.eq_nil_or_concat' with rfl | ⟨init, last, rfl⟩
      · obtain rfl : b = .identifier name := heq
        simp [Ast.mentions]
      · rw [lookbacks_concat] at heq
        cases heq
  have hresolve : h.resolve nan cursor (fun ast ctx =>
      (evalAst (h.registry nan base cursor inner levels) inner ast ctx).map Prod.fst) b (ks ++ [k]).sum (memoEnter ctx) =
      (h.bindSources nan cursor (ks ++ [k]).sum b.mentions {} >>= fun shifted =>
        (evalAst (h.registry nan base cursor inner levels) inner b (shifted :: memoEnter ctx)).map Prod.fst) := by
    have hany : (b.mentions.any fun name => (h.findSource name).isSome) = true := List.any_eq_true.mpr ⟨n, hn, hname⟩
    unfold resolve
    rw [hb.slots, hany, Int.toNat_natCast, offsetOf_exact (hks.total _ (List.prefix_refl _))]
    rfl
  unfold evalAst
  rw [htype]
  show ((evalNode (h.registry nan base cursor inner (levels + 1))
      (evalDepth (h.registry nan base cursor inner (levels + 1)) depth)
      (.index (lookbacks b ks) (.number (Double.ofNat k))) (memoEnter ctx)) >>= fun p => .ok (p.1, memoLeave p.2)).map _ = _
  rw [hindex, hresolve]
  cases h.bindSources nan cursor (ks ++ [k]).sum b.mentions {} with
  | error e => rfl
  | ok shifted =>
    show ((((evalAst _ inner b (shifted :: memoEnter ctx)).map Prod.fst).map _) >>= _).map _ =
      (evalAst _ inner b (shifted :: memoEnter ctx)).map Prod.fst
    cases evalAst (h.registry nan base cursor inner levels) inner b (shifted :: memoEnter ctx) with
    | error e => rfl
    | ok p => rfl

/-! ### Composition -/

/-- The cursor stands on a position of every source that the expression mentions. -/
def InRange (h : History D) (b : Ast D) (cursor : Int) : Prop :=
  ∀ name ∈ b.mentions, ∀ source, h.findSource name = some source → 0 ≤ cursor ∧ cursor < source.values.length

/-- The host has stored what the mentioned sources have at the position, or at the first one before it. -/
def StoredAt (h : History D) (nan : D) (b : Ast D) (cursor : Int) (ctx : Context D) : Prop :=
  ∀ name ∈ b.mentions, ∀ source, h.findSource name = some source →
    ctx.getTyped name = some (.number (source.values.getD cursor.toNat nan))

omit [Double D] in
/-- The contexts have the same parameters, and one that has a number is that number. -/
structure SameParams (ctx ctx' : Context D) : Prop where
  number : ∀ name, ctx'.getParam name = ctx.getParam name
  typed : ∀ name, ctx'.getParamTyped name = ctx.getParamTyped name
  single : ∀ name d, ctx.getParam name = some d → ctx.getParamTyped name = some (.number d)

omit [Double D] in
theorem SameParams.overlay {ctx' : Context D} (h : SameParams ctx ctx') {f : Frame D} (hf : f.VarsOnly) (name : String) :
    Context.getParamTyped (f :: memoEnter ctx) name = ctx'.getParamTyped name := by
  have hnumber : (memoEnter ctx).getParam name = ctx.getParam name := by cases ctx <;> rfl
  have htyped : (memoEnter ctx).getParamTyped name = ctx.getParamTyped name := by cases ctx <;> rfl
  rw [hf.getParamTyped, hnumber, htyped, h.typed]
  cases hparam : ctx.getParam name with
  | none => rfl
  | some d => exact (h.single name d hparam).symm

omit [Double D] in
theorem SameParams.symm_overlay {ctx' : Context D} (h : SameParams ctx ctx') {f : Frame D} (hf : f.VarsOnly)
    (name : String) :
    Context.getParamTyped (f :: memoEnter ctx) name = Context.getParamTyped (f :: memoEnter ctx') name := by
  have hsame : SameParams ctx' ctx' :=
    ⟨fun _ => rfl, fun _ => rfl, fun n d hd => (h.typed n).trans (h.single n d ((h.number n).symm.trans hd))⟩
  rw [h.overlay hf, hsame.overlay hf]

omit [Double D] in
theorem valueAt_eq_getD (nan : D) {source : HistorySource D} {cursor : Int} {k : Nat}
    (hcursor : 0 ≤ cursor ∧ cursor < source.values.length) (hback : k ≤ cursor ∨ h.policy = .clampFirst) :
    h.valueAt nan source cursor k = .ok (source.values.getD (cursor - k).toNat nan) := by
  unfold valueAt
  rw [if_neg (by omega)]
  split
  · rename_i hneg
    rcases hback with hle | hclamp
    · omega
    · have hzero : (cursor - k).toNat = 0 := by omega
      rw [hclamp, hzero]
  · rfl

omit [Double D] in
theorem valueAt_shift (nan : D) {source : HistorySource D} {cursor : Int} {k offset : Nat}
    (hcursor : 0 ≤ cursor ∧ cursor < source.values.length) (hback : k ≤ cursor) :
    h.valueAt nan source cursor (offset + k : Nat) = h.valueAt nan source (cursor - k) offset := by
  have hposition : cursor - ((offset + k : Nat) : Int) = cursor - k - offset := by omega
  have hin : ¬(cursor < 0 ∨ source.values.length ≤ cursor) := by omega
  have hin' : ¬(cursor - k < 0 ∨ source.values.length ≤ cursor - k) := by omega
  unfold valueAt
  rw [hposition, if_neg hin, if_neg hin']

theorem exact_int {n : Nat} (hn : n < 2 ^ 32) : Exact Int n where
  offset := by
    have hinteger : (!Double.isfinite (Double.ofNat n : Int) || Double.lt (Double.ofNat n : Int) Double.zero ||
        Double.ne (Double.floor (Double.ofNat n : Int)) (Double.ofNat n) ||
        Double.gt (Double.ofNat n : Int) (Double.ofNat (2 ^ 63 - 1))) = false := by
      simp [Double.isfinite, Double.lt, Double.ne, Double.floor, Double.gt, Double.ofNat, Double.zero, Double.eq]
      omega
    unfold capabilityOffset
    dsimp only
    rw [hinteger]
    rfl
  literal _ := by
    unfold Ir.lookbackLiteralOffset
    simp [Double.isfinite, Double.lt, Double.ge, Double.le, Double.gt, Double.ofNat, Double.zero, Double.toSize,
      Double.add, Double.half, Double.fabs, Double.sub, Double.tolerance]
    omega

def columns (residue : String) : History Int where
  sources := [⟨"s", [1, 2, 4, 8]⟩, ⟨"t", [10, 20, 40, 80]⟩, ⟨"u", [7]⟩]
  policy := .error
  residue _ _ := residue
  accepted := by decide

def columnsAt (s t : Int) : Context Int := [(({} : Frame Int).set "s" s).set "t" t]

theorem columnsAt_stored (residue : String) {b : Ast Int} (hb : ∀ n ∈ b.mentions, n = "s" ∨ n = "t") :
    (columns residue).StoredAt 0 b 2 (columnsAt 4 40) := by
  intro n hn source hsource
  rcases hb n hn with rfl | rfl
  · cases hsource
    rfl
  · cases hsource
    rfl

/-- `s[1] + t`. -/
def nested : Ast Int := .binary .plus (.index (.identifier "s") (.number 1)) (.identifier "t")

end History
end Cxpr
