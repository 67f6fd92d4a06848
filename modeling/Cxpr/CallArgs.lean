import Mathlib.Data.List.Nodup
import Mathlib.Data.List.Perm.Subperm
import Mathlib.Data.List.Range
import Cxpr.Registry

/-! The order that `cxpr_call_bind_args` gives the arguments of a call: which place every argument gets, and the calls
    that it refuses. -/

namespace Cxpr
variable {α : Type}

/-- The place of the argument `i` when names are looked up in `params`: a positional argument keeps its index, a named
    one stands where its first matching parameter does. -/
def argPlace (params : List String) (i : Nat) : Option String → Option Nat
  | none => some i
  | some n => params.findIdx? (callParamNameMatches · n)

def argPlaces (params : List String) (args : List (Option String × α)) : List (Option Nat) :=
  args.mapIdx fun i x => argPlace params i x.1

def PositionalFirst (args : List (Option String × α)) : Prop := args.Pairwise fun x y => x.1.isSome → y.1.isSome

/-- The call fits the parameters: its arguments fill a prefix of them, each place once. -/
structure Fits (params : List String) (args : List (Option String × α)) : Prop where
  places : (argPlaces params args).Perm ((List.range args.length).map some)
  positionalFirst : PositionalFirst args

def Stored (params : List String) (args : List (Option String × α)) (ordered : List α) : Prop :=
  ∀ (i : Nat) (x : Option String × α), args[i]? = some x → ∃ j, argPlace params i x.1 = some j ∧ ordered[j]? = some x.2

/-- The places `ts` that a run gives to its arguments: all different, free before the run and holding the arguments
    after it, while the other slots stay as they are. -/
structure Fills (args : List (Option String × α)) (slots slots' : List (Option α)) (ts : List Nat) : Prop where
  nodup : ts.Nodup
  free : ∀ t ∈ ts, slots[t]? = some none
  stored : ∀ (i : Nat) (x : Option String × α) (t : Nat), args[i]? = some x → ts[i]? = some t → slots'[t]? = some (some x.2)
  kept : ∀ j, j ∉ ts → slots'[j]? = slots[j]?

theorem Fills.nil (slots : List (Option α)) : Fills [] slots slots [] where
  nodup := List.nodup_nil
  free := by simp
  stored := by simp
  kept := by simp

theorem Fills.cons {x : Option String × α} {args : List (Option String × α)} {slots slots' : List (Option α)}
    {t : Nat} {ts : List Nat} (hfree : slots[t]? = some none) (h : Fills args (slots.set t (some x.2)) slots' ts) :
    Fills (x :: args) slots slots' (t :: ts) := by
  have hlt : t < slots.length := (List.getElem?_eq_some_iff.mp hfree).1
  have hset : (slots.set t (some x.2))[t]? = some (some x.2) := List.getElem?_set_self hlt
  have hnot : t ∉ ts := by
    intro ht
    have hnone := h.free t ht
    rw [hset] at hnone
    simp at hnone
  have hother : ∀ j, j ≠ t → (slots.set t (some x.2))[j]? = slots[j]? := fun j hj => List.getElem?_set_ne (Ne.symm hj)
  refine ⟨List.nodup_cons.mpr ⟨hnot, h.nodup⟩, ?_, ?_, ?_⟩
  · intro j hj
    rcases List.mem_cons.mp hj with rfl | hj
    · exact hfree
    · rw [← hother j fun heq => hnot (heq ▸ hj)]
      exact h.free j hj
  · intro i y j hy hj
    cases i with
    | zero =>
      simp only [List.getElem?_cons_zero, Option.some.injEq] at hy hj
      subst hy hj
      rw [h.kept t hnot, hset]
    | succ i => exact h.stored i y j (by simpa using hy) (by simpa using hj)
  · intro j hj
    obtain ⟨hne, hrest⟩ := List.ne_and_not_mem_of_not_mem_cons hj
    rw [h.kept j hrest, hother j hne]

variable {args : List (Option String × α)} {slots' slots : List (Option α)} {ordered : List α}
variable {window params : List String} {seen : Bool} {β : Type}

theorem Fills.perm_range {m : Nat} {ts : List Nat}
    (h : Fills args (List.replicate m none) slots' ts) (hlen : ts.length = args.length)
    (hfull : slots'.take args.length = ordered.map some) (hcount : ordered.length = args.length) :
    ts.Perm (List.range args.length) := by
  have hsub : List.range args.length ⊆ ts := by
    intro j hj
    have hlt : j < args.length := List.mem_range.mp hj
    by_contra hnot
    have hkept := h.kept j hnot
    have hvalue : slots'[j]? = some (ordered[j]?) := by
      have hget := congrArg (·[j]?) hfull
      simpa [List.getElem?_take, hlt, hcount] using hget
    rw [hvalue, List.getElem?_replicate, List.getElem?_eq_getElem (by omega)] at hkept
    split at hkept <;> simp at hkept
  exact ((List.nodup_range.subperm hsub).perm_of_length_le (by simp [hlen])).symm

def placesFrom (params : List String) (i : Nat) (args : List (Option String × α)) : List (Option Nat) :=
  args.mapIdx fun j x => argPlace params (i + j) x.1

theorem placesFrom_zero (params : List String) (args : List (Option String × α)) :
    placesFrom params 0 args = argPlaces params args := by
  simp [placesFrom, argPlaces]

@[simp] theorem placesFrom_cons (params : List String) (i : Nat) (x : Option String × α)
    (args : List (Option String × α)) :
    placesFrom params i (x :: args) = argPlace params i x.1 :: placesFrom params (i + 1) args := by
  simp [placesFrom, Nat.add_assoc, Nat.add_comm 1]

theorem fillWindow_fills {k i : Nat} (h : fillWindow window args seen k slots = some slots')
    (hlen : window.length ≤ slots.length)
    (hk : seen = false → i = k ∧ ∀ j < slots.length, k ≤ j → slots[j]? = some none) :
    (seen → ∀ x ∈ args, x.1.isSome) ∧ PositionalFirst args ∧
      ∃ ts, placesFrom window i args = ts.map some ∧ Fills args slots slots' ts := by
  induction args generalizing seen k i slots with
  | nil =>
    cases h
    exact ⟨by simp, List.Pairwise.nil, [], rfl, .nil _⟩
  | cons x args ih =>
    obtain ⟨n?, v⟩ := x
    cases n? with
    | none =>
      simp only [fillWindow] at h
      split at h
      · cases h
      rename_i hroom
      simp only [Bool.or_eq_true, decide_eq_true_eq, not_or, Bool.not_eq_true, Nat.not_le] at hroom
      obtain ⟨rfl, hlt⟩ := hroom
      obtain ⟨rfl, hfree⟩ := hk rfl
      obtain ⟨-, hfirst, ts, hts, hfills⟩ := ih (i := i + 1) h (by simpa using hlen) fun _ => ⟨rfl, fun j hj hle => by
        rw [List.getElem?_set_ne (by omega)]
        exact hfree j (by simpa using hj) (by omega)⟩
      refine ⟨by simp, List.pairwise_cons.mpr ⟨by simp, hfirst⟩, i :: ts, ?_, hfills.cons (hfree i hlt (le_refl i))⟩
      simp [argPlace, hts]
    | some n =>
      simp only [fillWindow] at h
      split at h
      · cases h
      rename_i j hj
      split at h
      · cases h
      rename_i htaken
      have hnone : slots[j]? = some none := by
        have hlt : j < slots.length := Nat.lt_of_lt_of_le (List.findIdx?_eq_some_iff_getElem.mp hj).1 hlen
        rw [List.getElem?_eq_getElem hlt] at htaken ⊢
        simpa using htaken
      obtain ⟨hnamed, hfirst, ts, hts, hfills⟩ := ih (i := i + 1) h (by simpa using hlen) (by simp)
      have hall := hnamed rfl
      refine ⟨fun _ => ?_, List.pairwise_cons.mpr ⟨fun y hy _ => hall y hy, hfirst⟩, j :: ts, ?_, hfills.cons hnone⟩
      · simpa using hall
      · simp [argPlace, hj, hts]

theorem fillWindow_isSome {k i : Nat} {ts : List Nat} (hts : placesFrom window i args = ts.map some) (hnodup : ts.Nodup)
    (hfree : ∀ t ∈ ts, slots[t]? = some none) (hfirst : PositionalFirst args)
    (hseen : seen → ∀ x ∈ args, x.1.isSome) (hk : seen = false → i = k) :
    ∃ slots', fillWindow window args seen k slots = some slots' := by
  induction args generalizing seen k i slots ts with
  | nil => exact ⟨slots, rfl⟩
  | cons x args ih =>
    obtain ⟨n?, v⟩ := x
    obtain ⟨hlater, htail⟩ := List.pairwise_cons.mp hfirst
    obtain ⟨t, ts, rfl⟩ : ∃ t rest, ts = t :: rest := by
      cases ts with
      | nil => simp at hts
      | cons t rest => exact ⟨t, rest, rfl⟩
    simp only [placesFrom_cons, List.map_cons, List.cons.injEq] at hts
    obtain ⟨hplace, hrestPlaces⟩ := hts
    obtain ⟨hnot, hrestNodup⟩ := List.nodup_cons.mp hnodup
    have hfreet := hfree t (by simp)
    have hlt : t < slots.length := (List.getElem?_eq_some_iff.mp hfreet).1
    have hrest : ∀ t' ∈ ts, (slots.set t (some v))[t']? = some none := by
      intro t' ht'
      rw [List.getElem?_set_ne (by rintro rfl; exact hnot ht')]
      exact hfree t' (by simp [ht'])
    cases n? with
    | none =>
      have hunseen : seen = false := by
        cases seen with
        | false => rfl
        | true => simpa using hseen rfl (none, v) List.mem_cons_self
      obtain rfl := hk hunseen
      obtain rfl : i = t := by simpa [argPlace] using hplace
      have hroom : ¬ slots.length ≤ i := by omega
      simp only [fillWindow, hunseen, Bool.false_or, hroom, decide_false, Bool.false_eq_true, if_false]
      exact ih (i := i + 1) hrestPlaces hrestNodup hrest htail (by simp) (by simp)
    | some n =>
      have hplace : window.findIdx? (callParamNameMatches · n) = some t := hplace
      simp only [fillWindow, hplace, hfreet, Option.join_some, Option.isSome_none, Bool.false_eq_true, if_false]
      exact ih (i := i + 1) hrestPlaces hrestNodup hrest htail (fun _ x hx => hlater x hx rfl) (by simp)

theorem findIdx?_take_eq_some {p : β → Bool} {xs : List β} {m j : Nat} :
    (xs.take m).findIdx? p = some j ↔ xs.findIdx? p = some j ∧ j < m := by
  simp only [List.findIdx?_eq_some_iff_getElem, List.length_take, List.getElem_take]
  constructor
  · rintro ⟨hlt, hp, hmin⟩
    exact ⟨⟨by omega, hp, hmin⟩, by omega⟩
  · rintro ⟨⟨hlt, hp, hmin⟩, hm⟩
    exact ⟨by omega, hp, hmin⟩

theorem argPlace_take {m i j : Nat} {n? : Option String} (h : argPlace params i n? = some j)
    (hlt : j < m) : argPlace (params.take m) i n? = some j := by
  cases n? with
  | none => exact h
  | some n => exact findIdx?_take_eq_some.mpr ⟨h, hlt⟩

theorem argPlace_of_take {m i j : Nat} {n? : Option String}
    (h : argPlace (params.take m) i n? = some j) : argPlace params i n? = some j := by
  cases n? with
  | none => exact h
  | some n => exact (findIdx?_take_eq_some.mp h).1

theorem getElem?_argPlaces (params : List String) (args : List (Option String × α)) (i : Nat) :
    (argPlaces params args)[i]? = args[i]?.map fun x => argPlace params i x.1 := by
  simp [argPlaces]

theorem Fits.argPlace_eq_some (h : Fits params args) {i : Nat}
    {x : Option String × α} (hx : args[i]? = some x) : ∃ j < args.length, argPlace params i x.1 = some j := by
  have hmem : argPlace params i x.1 ∈ argPlaces params args := by
    refine List.mem_of_getElem? (i := i) ?_
    simp [getElem?_argPlaces, hx]
  obtain ⟨j, hj, heq⟩ := List.mem_map.mp (h.places.mem_iff.mp hmem)
  exact ⟨j, List.mem_range.mp hj, heq.symm⟩

theorem Fits.congr {params' : List String} (h : Fits params args)
    (hplace : ∀ i n? j, argPlace params i n? = some j → j < args.length → argPlace params' i n? = some j) :
    Fits params' args := by
  have heq : argPlaces params' args = argPlaces params args := by
    refine List.ext_getElem? fun i => ?_
    rw [getElem?_argPlaces, getElem?_argPlaces]
    cases hx : args[i]? with
    | none => rfl
    | some x =>
      obtain ⟨j, hlt, hj⟩ := h.argPlace_eq_some hx
      rw [Option.map_some, Option.map_some, hj, hplace i x.1 j hj hlt]
  exact ⟨heq ▸ h.places, h.positionalFirst⟩

theorem fits_take :
    Fits (params.take args.length) args ↔ Fits params args :=
  ⟨fun h => h.congr fun _ _ _ hj _ => argPlace_of_take hj, fun h => h.congr fun _ _ _ hj hlt => argPlace_take hj hlt⟩

theorem fits_of_fillWindow {m : Nat} (hrun : fillWindow window args false 0 (List.replicate m none) = some slots')
    (hlen : window.length ≤ m) (hfull : slots'.take args.length = ordered.map some)
    (hcount : ordered.length = args.length) : Fits window args ∧ Stored window args ordered := by
  obtain ⟨-, hfirst, ts, hts, hfills⟩ := fillWindow_fills (i := 0) hrun (by simpa using hlen) fun _ =>
    ⟨rfl, fun j hj _ => by simp at hj; simp [hj]⟩
  rw [placesFrom_zero] at hts
  have htsLen : ts.length = args.length := by simpa [argPlaces] using (congrArg List.length hts).symm
  have hperm := hfills.perm_range htsLen hfull hcount
  refine ⟨⟨hts ▸ hperm.map some, hfirst⟩, fun i x hx => ?_⟩
  have hlt : i < ts.length := htsLen ▸ (List.getElem?_eq_some_iff.mp hx).1
  have hplace : argPlace window i x.1 = some ts[i] := by
    have hget := congrArg (·[i]?) hts
    simpa [getElem?_argPlaces, hx, hlt] using hget
  have hstored := hfills.stored i x ts[i] hx (List.getElem?_eq_getElem hlt)
  have hbound : ts[i] < args.length := List.mem_range.mp (hperm.mem_iff.mp (List.getElem_mem hlt))
  have hvalue := congrArg (·[ts[i]]?) hfull
  simp only [List.getElem?_take, hbound, if_true, hstored, List.getElem?_map] at hvalue
  obtain ⟨v, hv, heq⟩ := Option.map_eq_some_iff.mp hvalue.symm
  exact ⟨ts[i], hplace, by simpa using heq ▸ hv⟩

theorem exists_map_some {xs : List (Option β)} (h : ∀ x ∈ xs, x.isSome) : ∃ ys : List β, xs = ys.map some := by
  refine ⟨xs.filterMap id, ?_⟩
  rw [List.map_filterMap_some_eq_filter_map_isSome, List.map_id, List.filter_eq_self.mpr h]

theorem fillWindow_of_fits (h : Fits window args)
    (hlen : window.length ≤ args.length) :
    ∃ ordered : List α,
      (fillWindow window args false 0 (List.replicate args.length none)).bind (·.mapM id) = some ordered := by
  obtain ⟨ts, hts⟩ : ∃ ts : List Nat, argPlaces window args = ts.map some := by
    refine exists_map_some fun p hp => ?_
    obtain ⟨j, -, rfl⟩ := List.mem_map.mp (h.places.mem_iff.mp hp)
    rfl
  have hperm : ts.Perm (List.range args.length) := by
    have hcut := (hts ▸ h.places).filterMap id
    simpa using hcut
  have hfree : ∀ t ∈ ts, (List.replicate args.length (none : Option α))[t]? = some none := by
    intro t ht
    have hlt : t < args.length := List.mem_range.mp (hperm.mem_iff.mp ht)
    simp [hlt]
  obtain ⟨slots', hrun⟩ : ∃ slots', fillWindow window args false 0 (List.replicate args.length none) = some slots' :=
    fillWindow_isSome (i := 0) (by rw [placesFrom_zero, hts]) (hperm.nodup_iff.mpr List.nodup_range) hfree
      h.positionalFirst (by simp) fun _ => rfl
  obtain ⟨-, -, ts', hts', hfills⟩ := fillWindow_fills (i := 0) hrun (by simpa using hlen) fun _ =>
    ⟨rfl, fun j hj _ => by simp at hj; simp [hj]⟩
  obtain rfl : ts' = ts := by
    have heq : ts'.map some = ts.map some := by rw [← hts', placesFrom_zero, hts]
    exact List.map_inj_right (fun _ _ => Option.some.inj) |>.mp heq
  have hcount : ts'.length = args.length := by simpa using hperm.length_eq
  obtain ⟨ordered, rfl⟩ : ∃ ordered : List α, slots' = ordered.map some := by
    refine exists_map_some fun slot hslot => ?_
    obtain ⟨j, hj⟩ := List.mem_iff_getElem?.mp hslot
    have hlt : j < args.length := by
      have hin := (List.getElem?_eq_some_iff.mp hj).1
      simpa [(fillWindow_mem hrun).1] using hin
    obtain ⟨i, hi⟩ := List.mem_iff_getElem?.mp (hperm.mem_iff.mpr (List.mem_range.mpr hlt))
    have hiArgs : i < args.length := hcount ▸ (List.getElem?_eq_some_iff.mp hi).1
    have hstored := hfills.stored i args[i] j (List.getElem?_eq_getElem hiArgs) hi
    rw [hj, Option.some.injEq] at hstored
    simp [hstored]
  refine ⟨ordered, ?_⟩
  rw [hrun, Option.bind_some, List.mapM_map]
  exact (List.mapM_pure (m := Option) (f := id)).trans (by simp)

theorem fillPrefixed_eq_ok {k : Nat} (h : fillPrefixed params args seen k slots = .ok slots') :
    fillWindow params args seen k slots = some slots' := by
  fun_induction fillPrefixed params args seen k slots with
  | case1 =>
    cases h
    rfl
  | case2 => cases h
  | case3 => cases h
  | case4 a rest seen k slots hseen hroom ih => simpa [fillWindow, hseen, hroom] using ih h
  | case5 => cases h
  | case6 => cases h
  | case7 n a rest seen k slots j hj hfree ih => simpa [fillWindow, hj, hfree] using ih h

theorem findSome?_range_eq_some {f : Nat → Option β} {n : Nat} {b : β}
    (h : (List.range n).findSome? f = some b) : ∃ i < n, f i = some b ∧ ∀ j < i, f j = none := by
  induction n with
  | zero => simp at h
  | succ n ih =>
    rw [List.range_succ, List.findSome?_append, Option.or_eq_some_iff] at h
    rcases h with hearly | ⟨hnone, hlast⟩
    · obtain ⟨i, hi, hfound⟩ := ih hearly
      exact ⟨i, by omega, hfound⟩
    · refine ⟨n, by omega, by simpa using hlast, fun j hj => ?_⟩
      exact List.findSome?_eq_none_iff.mp hnone j (List.mem_range.mpr hj)

theorem callBindNamedWindow_eq_some
    (h : callBindNamedWindow params args = some ordered) (hcount : ordered.length = args.length) :
    ∃ w, Fits (params.drop w) args ∧ Stored (params.drop w) args ordered ∧
      ∀ earlier < w, ¬ Fits (params.drop earlier) args := by
  unfold callBindNamedWindow at h
  split at h
  · cases h
  rename_i hroom
  obtain ⟨w, hw, hbound, hearlier⟩ := findSome?_range_eq_some h
  obtain ⟨slots', hrun, hordered⟩ := Option.bind_eq_some_iff.mp hbound
  have hlen : ∀ v, ((params.drop v).take args.length).length ≤ args.length := fun v => List.length_take_le ..
  have hfull := mapM_id_eq_some hordered
  obtain ⟨hfits, hstored⟩ := fits_of_fillWindow hrun (hlen w) (by rw [hfull, ← hcount, ← List.length_map some, List.take_length]) hcount
  refine ⟨w, fits_take.mp hfits, fun i x hx => ?_, fun v hv hfitsv => ?_⟩
  · obtain ⟨j, hj, hvalue⟩ := hstored i x hx
    exact ⟨j, argPlace_of_take hj, hvalue⟩
  · obtain ⟨other, hother⟩ := fillWindow_of_fits (fits_take.mpr hfitsv) (hlen v)
    rw [hearlier v hv] at hother
    cases hother

theorem namedArgs_none (args : List α) {argNames : List (Option String)}
    (h : Ast.callUsesNamedArgs args.length argNames = false) {x : Option String × α} (hx : x ∈ namedArgs args argNames) :
    x.1 = none := by
  obtain ⟨i, hi, rfl⟩ := List.mem_mapIdx.mp hx
  cases hname : argNames[i]? with
  | none => simp
  | some n? =>
    have hmem : n? ∈ argNames.take args.length := by
      refine List.mem_of_getElem? (i := i) ?_
      rw [List.getElem?_take, if_pos hi, hname]
    have hplain := List.any_eq_false.mp h n? hmem
    simp only [Option.join_some]
    simpa using hplain

theorem fits_of_positional (h : ∀ x ∈ args, x.1 = none) :
    Fits params args ∧ Stored params args (args.map (·.2)) := by
  have hplace : ∀ (i : Nat) (x : Option String × α), args[i]? = some x → argPlace params i x.1 = some i := by
    intro i x hx
    rw [h x (List.mem_of_getElem? hx)]
    rfl
  have hplaces : argPlaces params args = (List.range args.length).map some := by
    refine List.ext_getElem? fun i => ?_
    rw [getElem?_argPlaces]
    cases hx : args[i]? with
    | none => simp [List.getElem?_eq_none_iff.mp hx]
    | some x =>
      have hlt := (List.getElem?_eq_some_iff.mp hx).1
      simp [hplace i x hx, hlt]
  refine ⟨⟨hplaces ▸ .refl _, ?_⟩, fun i x hx => ⟨i, hplace i x hx, by simp [hx]⟩⟩
  exact List.pairwise_of_forall_mem_list fun x hx y hy hsome => by simp [h x hx] at hsome

theorem namedArgs_map_snd (args : List α) (argNames : List (Option String)) :
    (namedArgs args argNames).map (·.2) = args := by
  refine List.ext_getElem? fun i => ?_
  simp [namedArgs, Function.comp_def]

theorem namedArgs_length (args : List α) (argNames : List (Option String)) :
    (namedArgs args argNames).length = args.length := by
  simp [namedArgs]

theorem Stored.perm
    (h : Stored params args ordered) (hfits : Fits params args) (hcount : ordered.length = args.length) :
    ordered.Perm (args.map (·.2)) := by
  have hargs : (args.map (·.2)).map some = (argPlaces params args).map (·.bind (ordered[·]?)) := by
    refine List.ext_getElem? fun i => ?_
    simp only [List.getElem?_map, getElem?_argPlaces]
    cases hx : args[i]? with
    | none => rfl
    | some x =>
      obtain ⟨j, hj, hvalue⟩ := h i x hx
      simp [hj, hvalue]
  have hordered : ordered.map some = ((List.range args.length).map some).map (·.bind (ordered[·]?)) := by
    refine List.ext_getElem? fun i => ?_
    by_cases hi : i < args.length
    · simp [hi, hcount]
    · simp [hi, hcount]
  have hperm : (ordered.map some).Perm ((args.map (·.2)).map some) := by
    rw [hargs, hordered]
    exact (hfits.places.map _).symm
  simpa using hperm.filterMap id

theorem callBindArgs_eq_ok {D : Type} {entry : FuncEntry D} {args : List α} {argNames : List (Option String)}
    {ordered : List α} (h : callBindArgs entry args argNames = .ok ordered) :
    ∃ w, Fits (entry.entryParamNames.drop w) (namedArgs args argNames) ∧
      Stored (entry.entryParamNames.drop w) (namedArgs args argNames) ordered ∧
      ∀ earlier < w, ¬ Fits (entry.entryParamNames.drop earlier) (namedArgs args argNames) := by
  have hcount : ordered.length = (namedArgs args argNames).length := by
    rw [namedArgs_length, (callBindArgs_mem h).1]
  unfold callBindArgs at h
  split at h
  · cases h
  split at h
  · rename_i hplain
    cases h
    have hnone : ∀ x ∈ namedArgs args argNames, x.1 = none :=
      fun x hx => namedArgs_none args (by simpa using hplain) hx
    obtain ⟨hfits, hstored⟩ := fits_of_positional hnone
    rw [namedArgs_map_snd] at hstored
    exact ⟨0, hfits, hstored, by simp⟩
  simp only at h
  split at h
  · cases h
  split at h
  · rename_i hwindow
    cases h
    exact callBindNamedWindow_eq_some hwindow hcount
  · obtain ⟨slots, hslots, h⟩ := bind_eq_ok.mp h
    split at h
    · rename_i hordered
      split at h
      · cases h
        obtain ⟨hfits, hstored⟩ := fits_of_fillWindow (fillPrefixed_eq_ok hslots) (le_refl _)
          (by rw [namedArgs_length]; exact mapM_id_eq_some hordered) hcount
        exact ⟨0, hfits, hstored, by simp⟩
      · cases h
    · cases h

theorem PositionalFirst.positional (h : PositionalFirst args) {i j : Nat} {v : α}
    (hj : args[j]? = some (none, v)) (hle : i ≤ j) : ∃ u : α, args[i]? = some (none, u) := by
  rcases hle.eq_or_lt with rfl | hlt
  · exact ⟨v, hj⟩
  obtain ⟨hjlt, hjv⟩ := List.getElem?_eq_some_iff.mp hj
  have himp := List.pairwise_iff_getElem.mp h i j (by omega) hjlt hlt
  rw [hjv] at himp
  cases hi : args[i] with
  | mk n? u =>
    cases n? with
    | none => exact ⟨u, by rw [List.getElem?_eq_getElem (by omega), hi]⟩
    | some n => simp [hi] at himp

/-- The calls with a name or an argument too many: an unknown name, a positional argument after a named one, two
    arguments that name one parameter, or a name whose parameters all have a positional argument. -/
inductive Misnamed (params : List String) (args : List (Option String × α)) : Prop where
  | unknown (n : String) (v : α) : (some n, v) ∈ args → params.findIdx? (callParamNameMatches · n) = none →
    Misnamed params args
  | positionalLast : ¬ PositionalFirst args → Misnamed params args
  | twice (i₁ i₂ j : Nat) (n₁ n₂ : String) (v₁ v₂ : α) : i₁ ≠ i₂ → args[i₁]? = some (some n₁, v₁) →
    args[i₂]? = some (some n₂, v₂) → params.findIdx? (callParamNameMatches · n₁) = some j →
    params.findIdx? (callParamNameMatches · n₂) = some j → Misnamed params args
  | taken (i : Nat) (n : String) (v : α) : args[i]? = some (some n, v) →
    (∀ (j : Nat) p, params[j]? = some p → callParamNameMatches p n → ∃ x : α, args[j]? = some (none, x)) → Misnamed params args

theorem Fits.place_injective (h : Fits params args)
    {i₁ i₂ t : Nat} {x₁ x₂ : Option String × α} (h₁ : args[i₁]? = some x₁) (h₂ : args[i₂]? = some x₂)
    (ht₁ : argPlace params i₁ x₁.1 = some t) (ht₂ : argPlace params i₂ x₂.1 = some t) : i₁ = i₂ := by
  have hnodup : (argPlaces params args).Nodup :=
    h.places.nodup_iff.mpr (List.nodup_range.map fun _ _ => Option.some.inj)
  have hp₁ : (argPlaces params args)[i₁]? = some (some t) := by rw [getElem?_argPlaces, h₁, Option.map_some, ht₁]
  have hp₂ : (argPlaces params args)[i₂]? = some (some t) := by rw [getElem?_argPlaces, h₂, Option.map_some, ht₂]
  exact (List.getElem?_inj (List.getElem?_eq_some_iff.mp hp₁).1 hnodup).mp (hp₁.trans hp₂.symm)

theorem callParamNameMatches_cases {p n₁ n₂ : String} (h₁ : callParamNameMatches p n₁)
    (h₂ : callParamNameMatches p n₂) :
    (∀ q, callParamNameMatches q n₁ = callParamNameMatches q n₂) ∨ (∀ q, callParamNameMatches q n₁ → q = p) ∨
      ∀ q, callParamNameMatches q n₂ → q = p := by
  have hswap : ∀ q, callParamNameMatches q "mult" = callParamNameMatches q "multiplier" := by
    intro q
    simp [callParamNameMatches, Bool.or_comm]
  have honly : ∀ q n, n = "value" ∨ n = "samples" → callParamNameMatches q n → q = n := by
    rintro q n (rfl | rfl) <;> simp [callParamNameMatches]
  have hcases : ∀ n, callParamNameMatches p n → p = n ∨ p = "value" ∧ n = "condition" ∨
      (p = "mult" ∨ p = "multiplier") ∧ (n = "mult" ∨ n = "multiplier") ∨ p = "samples" ∧ n = "bars" := by
    intro n hn
    simp only [callParamNameMatches, Bool.or_eq_true, Bool.and_eq_true, beq_iff_eq] at hn
    grind
  rcases hcases n₁ h₁ with rfl | ⟨rfl, rfl⟩ | ⟨hp, hn₁⟩ | ⟨rfl, rfl⟩
  · rcases hcases n₂ h₂ with rfl | ⟨rfl, rfl⟩ | ⟨hp, hn₂⟩ | ⟨rfl, rfl⟩
    · exact .inl fun _ => rfl
    · exact .inr (.inl fun q => honly q _ (.inl rfl))
    · refine .inl fun q => ?_
      rcases hp with rfl | rfl <;> rcases hn₂ with rfl | rfl <;> simp [hswap]
    · exact .inr (.inl fun q => honly q _ (.inr rfl))
  · rcases hcases n₂ h₂ with rfl | ⟨-, rfl⟩ | ⟨hp, -⟩ | ⟨hp, -⟩
    · exact .inr (.inr fun q => honly q _ (.inl rfl))
    · exact .inl fun _ => rfl
    · simp at hp
    · simp at hp
  · refine .inl fun q => ?_
    rcases hcases n₂ h₂ with rfl | ⟨rfl, -⟩ | ⟨-, hn₂⟩ | ⟨rfl, -⟩
    · rcases hp with rfl | rfl <;> rcases hn₁ with rfl | rfl <;> simp [hswap]
    · simp at hp
    · rcases hn₁ with rfl | rfl <;> rcases hn₂ with rfl | rfl <;> simp [hswap]
    · simp at hp
  · rcases hcases n₂ h₂ with rfl | ⟨hp, -⟩ | ⟨hp, -⟩ | ⟨-, rfl⟩
    · exact .inr (.inr fun q => honly q _ (.inr rfl))
    · simp at hp
    · simp at hp
    · exact .inl fun _ => rfl

theorem findIdx?_drop_eq_some {f : β → Bool} {xs : List β} {w j : Nat} (h : xs.findIdx? f = some j)
    (hle : w ≤ j) : (xs.drop w).findIdx? f = some (j - w) := by
  obtain ⟨hlt, hj, hmin⟩ := List.findIdx?_eq_some_iff_getElem.mp h
  refine List.findIdx?_eq_some_iff_getElem.mpr ⟨by rw [List.length_drop]; omega, ?_, fun i hi => ?_⟩
  · simpa [List.getElem_drop, Nat.add_sub_cancel' hle] using hj
  · simpa [List.getElem_drop] using hmin (w + i) (by omega)

theorem window_place_eq (hnodup : params.Nodup) {w j t₁ t₂ : Nat} {n₁ n₂ : String}
    (h₁ : params.findIdx? (callParamNameMatches · n₁) = some j)
    (h₂ : params.findIdx? (callParamNameMatches · n₂) = some j)
    (ht₁ : (params.drop w).findIdx? (callParamNameMatches · n₁) = some t₁)
    (ht₂ : (params.drop w).findIdx? (callParamNameMatches · n₂) = some t₂) : t₁ = t₂ := by
  obtain ⟨hlt, hj₁, -⟩ := List.findIdx?_eq_some_iff_getElem.mp h₁
  obtain ⟨hlt', hj₂, -⟩ := List.findIdx?_eq_some_iff_getElem.mp h₂
  -- a name whose only parameter is `params[j]` is known to the window only when `j` lies in it
  have hinside : ∀ {n t}, (params.drop w).findIdx? (callParamNameMatches · n) = some t →
      (∀ q, callParamNameMatches q n → q = params[j]) → w ≤ j := by
    intro n t ht honly
    obtain ⟨htlt, hmatch, -⟩ := List.findIdx?_eq_some_iff_getElem.mp ht
    rw [List.length_drop] at htlt
    have heq := honly _ hmatch
    rw [List.getElem_drop, hnodup.getElem_inj_iff] at heq
    omega
  have hsame : w ≤ j → t₁ = t₂ := by
    intro hle
    rw [findIdx?_drop_eq_some h₁ hle] at ht₁
    rw [findIdx?_drop_eq_some h₂ hle] at ht₂
    exact Option.some.inj (ht₁.symm.trans ht₂)
  rcases callParamNameMatches_cases hj₁ hj₂ with hall | honly | honly
  · simp only [hall] at ht₁
    exact Option.some.inj (ht₁.symm.trans ht₂)
  · exact hsame (hinside ht₁ honly)
  · exact hsame (hinside ht₂ honly)

theorem Misnamed.not_fits (h : Misnamed params args)
    (hnodup : params.Nodup) (w : Nat) : ¬ Fits (params.drop w) args := by
  intro hfits
  cases h with
  | unknown n v hmem hnone =>
    obtain ⟨i, hi⟩ := List.mem_iff_getElem?.mp hmem
    obtain ⟨t, -, ht⟩ := hfits.argPlace_eq_some hi
    obtain ⟨htlt, hmatch, -⟩ := List.findIdx?_eq_some_iff_getElem.mp ht
    have hmiss := List.findIdx?_eq_none_iff.mp hnone _ (List.mem_of_mem_drop (List.getElem_mem htlt))
    exact absurd (hmatch.symm.trans hmiss) (by simp)
  | positionalLast hlast => exact hlast hfits.positionalFirst
  | twice i₁ i₂ j n₁ n₂ v₁ v₂ hne hi₁ hi₂ hj₁ hj₂ =>
    obtain ⟨t₁, -, ht₁⟩ := hfits.argPlace_eq_some hi₁
    obtain ⟨t₂, -, ht₂⟩ := hfits.argPlace_eq_some hi₂
    obtain rfl := window_place_eq hnodup hj₁ hj₂ ht₁ ht₂
    exact hne (hfits.place_injective hi₁ hi₂ ht₁ ht₂)
  | taken i n v hi htaken =>
    obtain ⟨t, -, ht⟩ := hfits.argPlace_eq_some hi
    obtain ⟨htlt, hmatch, -⟩ := List.findIdx?_eq_some_iff_getElem.mp ht
    have hparam : params[w + t]? = some (params.drop w)[t] := by
      rw [← List.getElem?_drop, List.getElem?_eq_getElem htlt]
    obtain ⟨x, hx⟩ := htaken _ _ hparam hmatch
    obtain ⟨y, hy⟩ := hfits.positionalFirst.positional hx (Nat.le_add_left t w)
    have heq := hfits.place_injective hi hy ht (rfl : argPlace _ t none = some t)
    rw [heq, hy] at hi
    simp at hi

/-- Named-argument binding. A call that binds has its arguments reordered: from some parameter `w` on, a positional
    argument keeps its index and a named one has the index of the first parameter that it names; `w` is the first
    parameter from which the call fits, so 0 when the call fits from the start. A misnamed call does not bind. -/
theorem callBindArgs_places {D : Type} (entry : FuncEntry D) (hnodup : entry.entryParamNames.Nodup) (args : List α)
    (argNames : List (Option String)) :
    (∀ ordered, callBindArgs entry args argNames = .ok ordered → ordered.Perm args ∧
      ∃ w, Fits (entry.entryParamNames.drop w) (namedArgs args argNames) ∧
        Stored (entry.entryParamNames.drop w) (namedArgs args argNames) ordered ∧
        ∀ earlier < w, ¬ Fits (entry.entryParamNames.drop earlier) (namedArgs args argNames)) ∧
    (Misnamed entry.entryParamNames (namedArgs args argNames) → ∃ e, callBindArgs entry args argNames = .error e) := by
  constructor
  · intro ordered h
    obtain ⟨w, hfits, hstored, hfirst⟩ := callBindArgs_eq_ok h
    have hperm := hstored.perm hfits (by rw [namedArgs_length, (callBindArgs_mem h).1])
    rw [namedArgs_map_snd] at hperm
    exact ⟨hperm, w, hfits, hstored, hfirst⟩
  · intro hmis
    cases h : callBindArgs entry args argNames with
    | error e => exact ⟨e, rfl⟩
    | ok ordered =>
      obtain ⟨w, hfits, -⟩ := callBindArgs_eq_ok h
      exact absurd hfits (hmis.not_fits hnodup w)

def macdEntry : FuncEntry Nat := { name := "macd", paramNames := ["source", "slow", "fast", "period"] }

theorem callBindArgs_places_macd :
    callBindArgs macdEntry [9, 21, 3] [some "fast", some "slow", some "period"] = .ok [21, 9, 3] ∧
      [21, 9, 3].Perm [9, 21, 3] :=
  ⟨rfl, ((callBindArgs_places macdEntry (by decide) [9, 21, 3] [some "fast", some "slow", some "period"]).1 _ rfl).1⟩

theorem callBindArgs_shifts :
    ¬ ∀ (entry : FuncEntry Nat) (args ordered : List Nat) (argNames : List (Option String)),
      entry.entryParamNames.Nodup → callBindArgs entry args argNames = .ok ordered →
      ∀ (i j : Nat) (n : String), argNames[i]? = some (some n) →
        entry.entryParamNames.findIdx? (callParamNameMatches · n) = some j → ordered[j]? = args[i]? := by
  intro h
  have hslow := h macdEntry [9, 21, 3] [21, 9, 3] [some "fast", some "slow", some "period"] (by decide) rfl 1 1 "slow"
    rfl (by decide)
  cases hslow

end Cxpr
