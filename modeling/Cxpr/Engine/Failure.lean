import Cxpr.Engine.Edges

/-! What a failed tick of an engine session leaves. The tick is spent: its cursor, its samples and its places in the
    rings of results stay. The memory of the watches is that of the last tick whose expressions were evaluated. -/

namespace Cxpr.Engine
open Expression
variable {D : Type}

/-- A source after its value `v` was read in a tick. -/
def Source.sampled (src : Source D) (v : D) : Source D :=
  if src.pull then { src with ring := src.ring.map (·.append v) } else src

theorem Source.sampled_of_skipped {src : Source D} (h : (!src.hydrateBare && !(src.pull && src.ring.isSome)) = true)
    (v : D) : src.sampled v = src := by
  obtain ⟨name, pull, bare, ring⟩ := src
  unfold Source.sampled
  cases pull with
  | false => rfl
  | true =>
    cases ring with
    | none => rfl
    | some r => simp at h

theorem hydrate_sources (t : Tick D) (s : Session D) (i : Nat) :
    (hydrate t s i).sources.length = s.sources.length ∧
      (∀ src, s.sources[i]? = some src → ∃ v, (hydrate t s i).sources[i]? = some (src.sampled v)) ∧
      ∀ j ≠ i, (hydrate t s i).sources[j]? = s.sources[j]? := by
  unfold hydrate
  cases hsrc : s.sources[i]? with
  | none => exact ⟨rfl, fun src h => (Option.some_ne_none _ h.symm).elim, fun j _ => rfl⟩
  | some src =>
    dsimp only
    split
    · rename_i hskip
      refine ⟨rfl, ?_, fun j _ => rfl⟩
      rintro _ ⟨⟩
      exact ⟨t.current s i src, by rw [Source.sampled_of_skipped hskip, hsrc]⟩
    · by_cases hpull : src.pull = true
      · rw [if_pos hpull]
        obtain ⟨hi, _⟩ := List.getElem?_eq_some_iff.mp hsrc
        refine ⟨List.length_set, ?_, fun j hj => List.getElem?_set_ne (Ne.symm hj)⟩
        rintro _ ⟨⟩
        refine ⟨t.current s i src, ?_⟩
        rw [List.getElem?_set_self hi, Source.sampled, if_pos hpull]
      · rw [if_neg hpull]
        refine ⟨rfl, ?_, fun j _ => rfl⟩
        rintro _ ⟨⟩
        exact ⟨t.current s i src, hsrc.trans (by rw [Source.sampled, if_neg hpull])⟩

theorem hydrates_sources (t : Tick D) {l : List Nat} (hl : l.Nodup) (s : Session D) :
    (l.foldl (hydrate t) s).sources.length = s.sources.length ∧
      ∀ (i : Nat) (src : Source D), s.sources[i]? = some src →
        ∃ v, (l.foldl (hydrate t) s).sources[i]? = some (if i ∈ l then src.sampled v else src) := by
  induction l generalizing s with
  | nil => exact ⟨rfl, fun i src h => ⟨t.current s i src, by simpa using h⟩⟩
  | cons k l ih =>
    obtain ⟨hk, hl⟩ := List.nodup_cons.mp hl
    obtain ⟨hlen, hself, hother⟩ := hydrate_sources t s k
    obtain ⟨hlen', hrest⟩ := ih hl (hydrate t s k)
    refine ⟨hlen'.trans hlen, fun i src hsrc => ?_⟩
    rw [List.foldl_cons]
    rcases eq_or_ne i k with rfl | hi
    · obtain ⟨v, hv⟩ := hself src hsrc
      obtain ⟨_, hafter⟩ := hrest i _ hv
      rw [if_neg hk] at hafter
      exact ⟨v, by rw [if_pos List.mem_cons_self, hafter]⟩
    · rw [← hother i hi] at hsrc
      obtain ⟨v, hv⟩ := hrest i src hsrc
      exact ⟨v, by simpa [hi] using hv⟩

theorem advance_sources (nan : D) (t : Tick D) (s : Session D) :
    (advance nan t s).sources.length = s.sources.length ∧
      ∀ (i : Nat) (src : Source D), s.sources[i]? = some src → ∃ v, (advance nan t s).sources[i]? = some (src.sampled v) := by
  obtain ⟨hlen, hall⟩ := hydrates_sources t List.nodup_range (started t s)
  refine ⟨hlen, fun i src hsrc => ?_⟩
  obtain ⟨v, hv⟩ := hall i src hsrc
  obtain ⟨hi, _⟩ := List.getElem?_eq_some_iff.mp hsrc
  rw [if_pos (List.mem_range.mpr hi)] at hv
  exact ⟨v, hv⟩

theorem hydrates_rings (t : Tick D) (l : List Nat) (s : Session D) :
    (l.foldl (hydrate t) s).exprRings = s.exprRings ∧ (l.foldl (hydrate t) s).cursor = s.cursor := by
  induction l generalizing s with
  | nil => exact ⟨rfl, rfl⟩
  | cons i l ih =>
    rw [List.foldl_cons]
    obtain ⟨h₁, h₂⟩ := ih (hydrate t s i)
    rw [h₁, h₂]
    unfold hydrate
    split
    · exact ⟨rfl, rfl⟩
    · split <;> exact ⟨rfl, rfl⟩

theorem advance_exprRings (nan : D) (t : Tick D) (s : Session D) :
    (advance nan t s).exprRings = s.exprRings.map (·.append (.number nan)) :=
  congrArg (List.map _) (hydrates_rings t _ _).1

theorem advance_cursor (nan : D) (t : Tick D) (s : Session D) :
    (advance nan t s).cursor = (t.index.map Int.ofNat).getD (s.cursor + 1) := by
  refine (hydrates_rings t _ _).2.trans ?_
  cases t.index with
  | none => rfl
  | some i => simp

section
variable [Double D]

def evaluation (nan : D) (rules : Rules D) (t : Tick D) (s : Session D) :
    Option Error × List (Entry D) × Calls D :=
  evaluatorEval (t.evalEntry (advance nan t s)) rules.evalOrder (advance nan t s).entries
    { argRings := (advance nan t s).argRings, sourceMemo := (advance nan t s).sourceMemo }

variable {rules : Rules D} {t : Tick D} {s : Session D} {err : Error} {entries : List (Entry D)}

theorem tick_of_failed {nan : D} {calls : Calls D} (h : evaluation nan rules t s = (some err, entries, calls)) :
    tick nan rules t s =
      (.error err,
        { advance nan t s with entries := entries, argRings := calls.argRings, sourceMemo := calls.sourceMemo }) := by
  unfold evaluation at h
  simp only [tick, h]

theorem tick_of_evaluated {nan : D}
    {calls : Calls D} (h : evaluation nan rules t s = (none, entries, calls)) :
    tick nan rules t s =
      ((detect nan entries (advance nan t s).eventCap rules.watches (advance nan t s).transitions []).1,
        { advance nan t s with
          entries := entries
          argRings := calls.argRings
          sourceMemo := calls.sourceMemo
          exprRings := fillRings nan rules.tracked entries (advance nan t s).exprRings
          transitions :=
            (detect nan entries (advance nan t s).eventCap rules.watches (advance nan t s).transitions []).2 }) := by
  unfold evaluation at h
  simp only [tick, h]

def Deeper {α : Type} (r r' : RingBuffer α) : Prop :=
  (∃ v, r' = r.append v) ∧ ∀ depth, depth + 1 < r.slots.length → r'.read (depth + 1) = r.read depth

theorem deeper_append {α : Type} {r : RingBuffer α} (h : r.Seated) (v : α) : Deeper r (r.append v) :=
  ⟨⟨v, rfl⟩, fun _ hd => RingBuffer.read_append_succ h v hd⟩

structure RingsSeated (rules : Rules D) (s : Session D) : Prop where
  sources : ∀ src ∈ s.sources, ∀ r, src.ring = some r → r.Seated
  exprRings : ∀ r ∈ s.exprRings, r.Seated
  tracked : s.exprRings.length = rules.tracked.length

omit [Double D] in
theorem fillRings_append (nan : D) {tracked : List Tracked} (entries : List (Entry D))
    {rings : List (RingBuffer (Value D))} (hlen : rings.length = tracked.length) {i : Nat} {r : RingBuffer (Value D)}
    (hr : rings[i]? = some r) :
    ∃ v, (fillRings nan tracked entries (rings.map (·.append (.number nan))))[i]? = some (r.append v) := by
  obtain ⟨hi, _⟩ := List.getElem?_eq_some_iff.mp hr
  obtain ⟨x, hx⟩ : ∃ x, tracked[i]? = some x := ⟨tracked[i], List.getElem?_eq_getElem (hlen ▸ hi)⟩
  refine ⟨(get entries x.name).getD (.number nan), ?_⟩
  rw [fillRings, List.getElem?_zipWith, hx, List.getElem?_map, hr]
  simp [RingBuffer.setNewest_append]

theorem tick_spends (nan : D) (t : Tick D) (hs : RingsSeated rules s) :
    (tick nan rules t s).2.cursor = (t.index.map Int.ofNat).getD (s.cursor + 1) ∧
    (tick nan rules t s).2.sources = (advance nan t s).sources ∧
    (tick nan rules t s).2.exprRings.length = s.exprRings.length ∧
    ∀ (i : Nat) (r : RingBuffer (Value D)), s.exprRings[i]? = some r →
      ∃ v, (tick nan rules t s).2.exprRings[i]? = some (r.append v) := by
  rcases heval : evaluation nan rules t s with ⟨_ | err, entries, calls⟩
  · rw [tick_of_evaluated heval]
    refine ⟨advance_cursor nan t s, rfl, ?_, fun i r hr => ?_⟩
    · show (fillRings nan rules.tracked entries (advance nan t s).exprRings).length = _
      simp [fillRings, advance_exprRings, hs.tracked]
    · show ∃ v, (fillRings nan rules.tracked entries (advance nan t s).exprRings)[i]? = some (r.append v)
      rw [advance_exprRings]
      exact fillRings_append nan entries hs.tracked hr
  · rw [tick_of_failed heval]
    refine ⟨advance_cursor nan t s, rfl, ?_, fun i r hr => ⟨.number nan, ?_⟩⟩
    · show (advance nan t s).exprRings.length = _
      rw [advance_exprRings, List.length_map]
    · show (advance nan t s).exprRings[i]? = _
      rw [advance_exprRings, List.getElem?_map, hr]
      rfl

omit [Double D] in
theorem Source.seated_sampled {src : Source D} (h : ∀ r, src.ring = some r → r.Seated) (v : D) :
    ∀ r, (src.sampled v).ring = some r → r.Seated := by
  unfold Source.sampled
  split
  · intro r hr
    obtain ⟨r₀, hr₀, rfl⟩ := Option.map_eq_some_iff.mp hr
    exact (h r₀ hr₀).append v
  · exact h

theorem RingsSeated.tick {nan : D} {rules : Rules D} {s : Session D} (hs : RingsSeated rules s) (t : Tick D) :
    RingsSeated rules (tick nan rules t s).2 := by
  obtain ⟨_, hsources, hlen, hrings⟩ := tick_spends nan t hs
  refine ⟨?_, ?_, hlen.trans hs.tracked⟩
  · rw [hsources]
    intro src hsrc
    obtain ⟨i, hi⟩ := List.mem_iff_getElem?.mp hsrc
    obtain ⟨hlt, _⟩ := List.getElem?_eq_some_iff.mp hi
    obtain ⟨hlen', hsampled⟩ := advance_sources nan t s
    have hold := List.getElem?_eq_getElem (hlen' ▸ hlt : i < s.sources.length)
    obtain ⟨v, hv⟩ := hsampled i _ hold
    rw [hv] at hi
    cases hi
    exact Source.seated_sampled (hs.sources _ (List.mem_of_getElem? hold)) v
  · intro r hr
    obtain ⟨i, hi⟩ := List.mem_iff_getElem?.mp hr
    obtain ⟨hlt, _⟩ := List.getElem?_eq_some_iff.mp hi
    have hold := List.getElem?_eq_getElem (hlen ▸ hlt : i < s.exprRings.length)
    obtain ⟨v, hv⟩ := hrings i _ hold
    rw [hv] at hi
    cases hi
    exact (hs.exprRings _ (List.mem_of_getElem? hold)).append v

theorem Reachable.ringsSeated {nan : D}
    (hrules : ∀ src ∈ rules.sources, ∀ r, src.ring = some r → r.Seated) (h : Reachable nan rules s) :
    RingsSeated rules s := by
  induction h with
  | new seeded =>
    refine ⟨hrules, ?_, by simp [sessionNew]⟩
    simp [sessionNew, RingBuffer.Seated]
  | tick t _ ih => exact ih.tick t
  | reset _ ih =>
    refine ⟨?_, ?_, by simpa [sessionReset] using ih.tracked⟩
    · intro src hsrc r hr
      obtain ⟨src₀, hsrc₀, rfl⟩ := List.mem_map.mp hsrc
      obtain ⟨r₀, hr₀, rfl⟩ := Option.map_eq_some_iff.mp hr
      exact (ih.sources src₀ hsrc₀ r₀ hr₀).clear
    · intro r hr
      obtain ⟨r₀, hr₀, rfl⟩ := List.mem_map.mp hr
      have hclear := (ih.exprRings r₀ hr₀).clear
      simpa [RingBuffer.Seated, RingBuffer.clear] using hclear

theorem transitions_of_evaluation {nan : D}
    (h : (evaluation nan rules t s).1 = some err) :
    (tick nan rules t s).2.transitions = s.transitions := by
  rcases heval : evaluation nan rules t s with ⟨_ | err, entries, calls⟩
  · rw [heval] at h
    cases h
  · rw [tick_of_failed heval]
    exact (advance_fields nan t s).1

theorem detect_error {nan : D} {cap : Nat} {watches : List Watch}
    {prevs : List (Transition D)} {acc : List (Event D)}
    (h : (detect nan entries cap watches prevs acc).1 = .error err) :
    ∃ w ∈ watches, ∃ v, get entries w.exprName = some v ∧ v.type ≠ .bool := by
  induction watches generalizing prevs acc with
  | nil => cases prevs <;> cases h
  | cons w watches ih =>
    cases prevs with
    | nil => cases h
    | cons prev prevs =>
      have later : ∀ acc, (detect nan entries cap watches prevs acc).1 = .error err →
          ∃ w' ∈ w :: watches, ∃ v, get entries w'.exprName = some v ∧ v.type ≠ .bool := by
        intro acc h
        obtain ⟨w', hw', hv⟩ := ih h
        exact ⟨w', List.mem_cons_of_mem _ hw', hv⟩
      unfold detect at h
      rcases hv : get entries w.exprName with _ | v
      · rw [hv] at h
        exact later _ h
      · rw [hv] at h
        cases v with
        | bool b => exact later _ h
        | _ => exact ⟨w, List.mem_cons_self, _, hv, by simp [Value.type]⟩

theorem detect_congr {nan : D} {entries' : List (Entry D)} {cap : Nat} {watches : List Watch}
    (h : ∀ w ∈ watches, get entries w.exprName = get entries' w.exprName) (prevs : List (Transition D))
    (acc : List (Event D)) :
    detect nan entries cap watches prevs acc = detect nan entries' cap watches prevs acc := by
  induction watches generalizing prevs acc with
  | nil => cases prevs <;> rfl
  | cons w watches ih =>
    cases prevs with
    | nil => rfl
    | cons prev prevs =>
      have hrest := ih fun w' hw' => h w' (List.mem_cons_of_mem _ hw')
      unfold detect
      rw [h w List.mem_cons_self]
      simp only [hrest]

theorem events_eq {nan : D} {t₁ t₂ : Tick D} {s₁ s₂ r₁ r₂ : Session D} {events₁ events₂ : List (Event D)}
    (h₁ : Sized rules s₁) (h₂ : Sized rules s₂) (htrans : s₁.transitions = s₂.transitions)
    (htick₁ : tick nan rules t₁ s₁ = (.ok events₁, r₁)) (htick₂ : tick nan rules t₂ s₂ = (.ok events₂, r₂))
    (hres : ∀ w ∈ rules.watches, get r₁.entries w.exprName = get r₂.entries w.exprName) : events₁ = events₂ := by
  obtain ⟨_, _, ⟨err, herr, _⟩ | ⟨_, hd₁⟩⟩ := tick_cases nan rules t₁ h₁
  · rw [htick₁] at herr
    cases herr
  obtain ⟨_, _, ⟨err, herr, _⟩ | ⟨_, hd₂⟩⟩ := tick_cases nan rules t₂ h₂
  · rw [htick₂] at herr
    cases herr
  rw [htick₁, h₁.events, detect_congr hres, htrans] at hd₁
  rw [htick₂, h₂.events, hd₁] at hd₂
  exact Except.ok.inj (congrArg Prod.fst hd₂)

/-- A failed tick of a reachable session is spent: the cursor has moved, each pull source has sampled and each ring of
    results has grown, so that every lookback reads one tick deeper than before. Unless it is a watched result that is
    no bool, the watches remember what they did, and the next tick that succeeds reports what it would have
    reported. -/
theorem tick_failed (nan : D) (rules : Rules D) (s : Session D) (t : Tick D) (err : Error)
    (hrules : ∀ src ∈ rules.sources, ∀ r, src.ring = some r → r.Seated) (hs : Reachable nan rules s)
    (h : (tick nan rules t s).1 = .error err) :
    (tick nan rules t s).2.cursor = (t.index.map Int.ofNat).getD (s.cursor + 1) ∧
    (∀ (i : Nat) (src : Source D), s.sources[i]? = some src →
      ∃ v, (tick nan rules t s).2.sources[i]? = some (src.sampled v) ∧
        ∀ r, src.pull = true → src.ring = some r → ∃ r', (src.sampled v).ring = some r' ∧ Deeper r r') ∧
    (∀ (i : Nat) (r : RingBuffer (Value D)), s.exprRings[i]? = some r →
      ∃ r', (tick nan rules t s).2.exprRings[i]? = some r' ∧ Deeper r r') ∧
    (((tick nan rules t s).2.transitions = s.transitions ∧
        ∀ (t₁ t₂ : Tick D) (r₁ r₂ : Session D) (events₁ events₂ : List (Event D)),
          tick nan rules t₁ (tick nan rules t s).2 = (.ok events₁, r₁) → tick nan rules t₂ s = (.ok events₂, r₂) →
          (∀ w ∈ rules.watches, get r₁.entries w.exprName = get r₂.entries w.exprName) → events₁ = events₂) ∨
      ((evaluation nan rules t s).1 = none ∧
        ∃ w ∈ rules.watches, ∃ v, get (evaluation nan rules t s).2.1 w.exprName = some v ∧ v.type ≠ .bool)) := by
  have hseated := hs.ringsSeated hrules
  obtain ⟨hcursor, hsources, _, hrings⟩ := tick_spends nan t hseated
  refine ⟨hcursor, fun i src hsrc => ?_, fun i r hr => ?_, ?_⟩
  · obtain ⟨v, hv⟩ := (advance_sources nan t s).2 i src hsrc
    refine ⟨v, by rw [hsources, hv], fun r hpull hr => ⟨r.append v, ?_, deeper_append ?_ v⟩⟩
    · rw [Source.sampled, if_pos hpull, hr]
      rfl
    · exact hseated.sources src (List.mem_of_getElem? hsrc) r hr
  · obtain ⟨v, hv⟩ := hrings i r hr
    exact ⟨_, hv, deeper_append (hseated.exprRings r (List.mem_of_getElem? hr)) v⟩
  · rcases heval : evaluation nan rules t s with ⟨_ | err', entries, calls⟩
    · right
      rw [tick_of_evaluated heval] at h
      exact ⟨rfl, detect_error h⟩
    · left
      have htrans := transitions_of_evaluation (congrArg Prod.fst heval)
      refine ⟨htrans, fun t₁ t₂ r₁ r₂ events₁ events₂ h₁ h₂ hres => ?_⟩
      exact events_eq (hs.sized.tick t) hs.sized htrans h₁ h₂ hres

end

/-- A pull source that is looked back to and a tracked expression with a rising edge. -/
def meterRules : Rules Int where
  exprs := [("up", "meter > meter[1]")]
  evalOrder := [0]
  watches := [⟨"up", .rising⟩]
  sources := [⟨"meter", true, true, some ⟨[0, 0], 0, 0⟩⟩]
  tracked := [⟨"up", 1⟩]
  watch_known := by decide
  order_complete := by decide

def meterTick : Tick Int where
  prepare := id
  index := none
  current _ _ _ := 7
  evalEntry _ _ _ calls := (.error ⟨.divisionByZero, "Division by zero"⟩, calls)

theorem meter_fails : ∃ err, (tick 0 meterRules meterTick (sessionNew meterRules {})).1 = .error err := by
  simp [tick, advance, meterTick, meterRules, sessionNew, evaluatorEval, evalLoop]

theorem tick_failed_meter :
    (tick 0 meterRules meterTick (sessionNew meterRules {})).2.cursor = 0 ∧
      (tick 0 meterRules meterTick (sessionNew meterRules {})).2.transitions = [Transition.initial] := by
  obtain ⟨err, herr⟩ := meter_fails
  have hrules : ∀ src ∈ meterRules.sources, ∀ r, src.ring = some r → r.Seated := by
    simp [meterRules, RingBuffer.Seated]
  obtain ⟨hcursor, _, _, ⟨htrans, _⟩ | ⟨hnone, _⟩⟩ :=
    tick_failed 0 meterRules (sessionNew meterRules {}) meterTick err hrules (.new {}) herr
  · exact ⟨hcursor, htrans⟩
  · simp [evaluation, advance, meterTick, meterRules, sessionNew, evaluatorEval, evalLoop] at hnone

/-- After the failed tick the cursor, the ring of the source and the ring of the expression are others. -/
theorem failed_tick_is_spent :
    Reachable 0 meterRules (sessionNew meterRules {}) ∧
    ∃ err s', tick 0 meterRules meterTick (sessionNew meterRules {}) = (.error err, s') ∧
      s'.cursor ≠ (sessionNew meterRules {}).cursor ∧
      s'.sources.map (fun src => src.ring.map (·.read 0)) ≠
        (sessionNew meterRules {}).sources.map (fun src => src.ring.map (·.read 0)) ∧
      s'.exprRings.map (·.count) ≠ (sessionNew meterRules {}).exprRings.map (·.count) := by
  obtain ⟨err, herr⟩ := meter_fails
  refine ⟨.new {}, err, _, Prod.ext herr rfl, ?_, ?_, ?_⟩ <;>
    simp [tick, advance, hydrate, meterTick, meterRules, sessionNew, evaluatorEval, evalLoop, RingBuffer.append,
      RingBuffer.read]

end Cxpr.Engine
