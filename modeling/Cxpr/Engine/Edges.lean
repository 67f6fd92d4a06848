import Cxpr.Engine.Session

/-! The events of an engine session: over every run of ticks since the creation or the last reset, the events of a tick
    are those that the values of the watched expressions at this tick and the one before call for. -/

namespace Cxpr.Engine
open Expression
variable {D : Type} [Double D]

inductive Reachable (nan : D) (rules : Rules D) : Session D → Prop
  | new (seeded : Frame D) : Reachable nan rules (sessionNew rules seeded)
  | tick {s : Session D} (t : Tick D) (h : Reachable nan rules s) : Reachable nan rules (tick nan rules t s).2
  | reset {s : Session D} (h : Reachable nan rules s) : Reachable nan rules (sessionReset s)

def Starts (nan : D) (rules : Rules D) (s : Session D) : Prop :=
  (∃ seeded, s = sessionNew rules seeded) ∨ ∃ s', Reachable nan rules s' ∧ s = sessionReset s'

def log (nan : D) (rules : Rules D) : Session D → List (Tick D) → List (Except Error (List (Event D)) × Session D)
  | _, [] => []
  | s, t :: ts => tick nan rules t s :: log nan rules (tick nan rules t s).2 ts

/-- The value of a watched expression in a session, `cxpr_engine_get_bool`. -/
def truth (s : Session D) (name : String) : Option Bool :=
  match get s.entries name with
  | some (.bool b) => some b
  | _ => none

/-- The value of a watched expression at the tick before the `k`-th, if there is one. -/
def truthBefore (results : List (Except Error (List (Event D)) × Session D)) (k : Nat) (name : String) : Option Bool :=
  match k with
  | 0 => none
  | k + 1 => results[k]?.bind fun r => truth r.2 name

/-- When an edge calls for an event, by the value at the tick before, if any, and the value now. -/
def Occurs (edge : Edge) (before now : Option Bool) : Prop :=
  match edge with
  | .rising => now = some true ∧ (before = none ∨ before = some false)
  | .falling => now = some false ∧ before = some true
  | .level => now = some true
  | .changed => before ≠ none ∧ before ≠ now

instance (edge : Edge) (before now : Option Bool) : Decidable (Occurs edge before now) := by
  unfold Occurs
  cases edge <;> infer_instance

def expected (watches : List Watch) (before now : String → Option Bool) : List (Event D) :=
  watches.filterMap fun w => if Occurs w.edge (before w.exprName) (now w.exprName) then
    (now w.exprName).map fun b => ⟨w.exprName, w.edge, .bool b⟩ else none

def remembered : Option Bool → Transition D
  | none => Transition.initial
  | some b => ⟨b, Double.ofBool b, true⟩

theorem fires_remembered (edge : Edge) (before : Option Bool) (now : Bool) :
    fires edge (remembered before : Transition D) now (Double.ofBool now) = decide (Occurs edge before (some now)) := by
  rcases before with _ | before
  · cases edge <;> cases now <;> simp [fires, remembered, Transition.initial, Occurs]
  · cases edge <;> cases before <;> cases now <;> simp [fires, remembered, Occurs, Double.ne]

variable {events : List (Event D)} {before : String → Option Bool} {rules : Rules D} {s : Session D}

theorem detect_bool {nan : D} {entries : List (Entry D)} {cap : Nat} {watches : List Watch}
    {prevs prevs' : List (Transition D)} {acc : List (Event D)} (hlen : prevs.length = watches.length)
    (heval : ∀ w ∈ watches, ∃ v, get entries w.exprName = some v)
    (h : detect nan entries cap watches prevs acc = (.ok events, prevs')) :
    ∀ w ∈ watches, ∃ b, get entries w.exprName = some (.bool b) := by
  induction watches generalizing prevs acc prevs' with
  | nil => simp
  | cons w watches ih =>
    obtain ⟨prev, prevs, rfl⟩ := List.exists_cons_of_length_eq_add_one hlen
    obtain ⟨v, hv⟩ := heval w (by simp)
    have hrest := fun w' hw' => heval w' (List.mem_cons_of_mem _ hw')
    rw [detect] at h
    cases v with
    | bool b =>
      simp only [hv] at h
      intro w' hw'
      rcases List.mem_cons.mp hw' with rfl | hw'
      · exact ⟨b, hv⟩
      · exact ih (by simpa using hlen) hrest (Prod.ext (Prod.mk.inj h).1 rfl) w' hw'
    | _ =>
      simp only [hv] at h
      cases h

theorem detect_expected {nan : D} {entries : List (Entry D)} {cap : Nat} {now : String → Option Bool}
    {watches : List Watch} {acc : List (Event D)} (hcap : acc.length + watches.length ≤ cap)
    (hnow : ∀ w ∈ watches, ∃ b, now w.exprName = some b ∧ get entries w.exprName = some (.bool b)) :
    detect nan entries cap watches (watches.map fun w => remembered (before w.exprName)) acc =
      (.ok (acc ++ expected watches before now), watches.map fun w => remembered (now w.exprName)) := by
  induction watches generalizing acc with
  | nil => simp [detect, expected]
  | cons w watches ih =>
    obtain ⟨b, hb, hget⟩ := hnow w (by simp)
    have hrest := fun w' hw' => hnow w' (List.mem_cons_of_mem _ hw')
    have hroom : acc.length < cap := by
      simp only [List.length_cons] at hcap
      omega
    simp only [List.map_cons, detect, hget, valueToDouble, fires_remembered, hroom, decide_true, Bool.and_true]
    by_cases ho : Occurs w.edge (before w.exprName) (some b)
    · have hlen : (acc ++ [⟨w.exprName, w.edge, .bool b⟩] : List (Event D)).length + watches.length ≤ cap := by
        simp only [List.length_append, List.length_cons, List.length_nil] at hcap ⊢
        omega
      simp only [ho, decide_true, if_true, Option.getD_some]
      rw [ih hlen hrest]
      simp [expected, hb, ho, remembered]
    · have hlen : acc.length + watches.length ≤ cap := by
        simp only [List.length_cons] at hcap
        omega
      simp only [ho, decide_false, Bool.false_eq_true, if_false]
      rw [ih hlen hrest]
      simp [expected, hb, ho, remembered]

structure Sized (rules : Rules D) (s : Session D) : Prop where
  transitions : s.transitions.length = rules.watches.length
  events : s.eventCap = rules.watches.length
  names : s.entries.map (·.name) = rules.exprs.map (·.1)

theorem sized_new (rules : Rules D) (seeded : Frame D) : Sized rules (sessionNew rules seeded) where
  transitions := by simp [sessionNew]
  events := rfl
  names := by simp [sessionNew]

theorem Sized.reset (h : Sized rules s) : Sized rules (sessionReset s) where
  transitions := by simp [sessionReset, h.transitions]
  events := h.events
  names := h.names

theorem detect_length (nan : D) (entries : List (Entry D)) (cap : Nat) (watches : List Watch)
    (prevs : List (Transition D)) (acc : List (Event D)) :
    (detect nan entries cap watches prevs acc).2.length = prevs.length := by
  induction watches generalizing prevs acc with
  | nil => cases prevs <;> rfl
  | cons w watches ih =>
    cases prevs with
    | nil => rfl
    | cons prev prevs =>
      rw [detect]
      rcases get entries w.exprName with _ | v
      · simp [ih]
      · cases v <;> simp [ih]

omit [Double D] in
theorem hydrate_fields (t : Tick D) (l : List Nat) (s : Session D) :
    (l.foldl (hydrate t) s).transitions = s.transitions ∧ (l.foldl (hydrate t) s).eventCap = s.eventCap ∧
      (l.foldl (hydrate t) s).entries = s.entries := by
  induction l generalizing s with
  | nil => exact ⟨rfl, rfl, rfl⟩
  | cons i l ih =>
    rw [List.foldl_cons]
    obtain ⟨h₁, h₂, h₃⟩ := ih (hydrate t s i)
    rw [h₁, h₂, h₃]
    unfold hydrate
    split
    · exact ⟨rfl, rfl, rfl⟩
    · split <;> exact ⟨rfl, rfl, rfl⟩

omit [Double D] in
theorem advance_fields (nan : D) (t : Tick D) (s : Session D) :
    (advance nan t s).transitions = s.transitions ∧ (advance nan t s).eventCap = s.eventCap ∧
      (advance nan t s).entries = s.entries :=
  hydrate_fields t _ _

theorem tick_cases (nan : D) (rules : Rules D) (t : Tick D) (hs : Sized rules s) :
    (tick nan rules t s).2.eventCap = s.eventCap ∧
    (tick nan rules t s).2.entries.map (·.name) = rules.exprs.map (·.1) ∧
    ((∃ err, (tick nan rules t s).1 = .error err ∧ (tick nan rules t s).2.transitions = s.transitions) ∨
      ((∀ w ∈ rules.watches, ∃ v, get (tick nan rules t s).2.entries w.exprName = some v) ∧
        detect nan (tick nan rules t s).2.entries s.eventCap rules.watches s.transitions [] =
          ((tick nan rules t s).1, (tick nan rules t s).2.transitions))) := by
  obtain ⟨htrans, hcap, hentries⟩ := advance_fields nan t s
  have hnames := evaluatorEval_names (t.evalEntry (advance nan t s)) rules.evalOrder (advance nan t s).entries
    ⟨(advance nan t s).argRings, (advance nan t s).sourceMemo, ∅, []⟩
  rcases heval : evaluatorEval (t.evalEntry (advance nan t s)) rules.evalOrder (advance nan t s).entries
    ⟨(advance nan t s).argRings, (advance nan t s).sourceMemo, ∅, []⟩ with ⟨_ | err, entries, calls⟩
  · rw [heval, hentries, hs.names] at hnames
    have hall : ∀ i < (advance nan t s).entries.length, i ∈ rules.evalOrder := by
      intro i hi
      refine rules.order_complete i ?_
      have hlen := congrArg List.length hs.names
      simp only [List.length_map] at hlen
      rwa [hentries, hlen] at hi
    simp only [tick, heval]
    refine ⟨hcap, hnames, Or.inr ⟨?_, ?_⟩⟩
    · intro w hw
      refine get_evaluatorEval hall heval ?_
      rw [hentries, hs.names]
      exact rules.watch_known w hw
    · rw [hcap, htrans]
  · rw [heval, hentries, hs.names] at hnames
    simp only [tick, heval]
    exact ⟨hcap, hnames, Or.inl ⟨err, rfl, htrans⟩⟩

theorem Sized.tick {nan : D} {rules : Rules D} {s : Session D} (hs : Sized rules s) (t : Tick D) :
    Sized rules (tick nan rules t s).2 := by
  obtain ⟨hcap, hnames, hcases⟩ := tick_cases nan rules t hs
  refine ⟨?_, hcap.trans hs.events, hnames⟩
  rcases hcases with ⟨_, _, htrans⟩ | ⟨_, hdetect⟩
  · rw [htrans, hs.transitions]
  · have hlen := detect_length nan (Engine.tick nan rules t s).2.entries s.eventCap rules.watches s.transitions []
    rw [hdetect] at hlen
    exact hlen.trans hs.transitions

theorem Reachable.sized {nan : D} (h : Reachable nan rules s) : Sized rules s := by
  induction h with
  | new seeded => exact sized_new rules seeded
  | tick t _ ih => exact ih.tick t
  | reset _ ih => exact ih.reset

def Remembers (rules : Rules D) (before : String → Option Bool) (s : Session D) : Prop :=
  s.transitions = rules.watches.map fun w => remembered (before w.exprName)

theorem tick_ok {nan : D} {s' : Session D} {t : Tick D} (hs : Sized rules s) (hbefore : Remembers rules before s)
    (h : tick nan rules t s = (.ok events, s')) :
    (∀ w ∈ rules.watches, ∃ b, truth s' w.exprName = some b) ∧ events = expected rules.watches before (truth s') ∧
      Remembers rules (truth s') s' := by
  obtain ⟨_, _, ⟨err, herr, _⟩ | ⟨heval, hdetect⟩⟩ := tick_cases nan rules t hs
  · rw [h] at herr
    cases herr
  · rw [h] at heval hdetect
    have hbool := detect_bool hs.transitions heval hdetect
    have htruth : ∀ w ∈ rules.watches, ∃ b, truth s' w.exprName = some b ∧ get s'.entries w.exprName = some (.bool b) := by
      intro w hw
      obtain ⟨b, hb⟩ := hbool w hw
      exact ⟨b, by simp [truth, hb], hb⟩
    have hcap : ([] : List (Event D)).length + rules.watches.length ≤ s.eventCap := by simp [hs.events]
    rw [hbefore, detect_expected hcap htruth, List.nil_append, Prod.mk.injEq, Except.ok.injEq] at hdetect
    exact ⟨fun w hw => (htruth w hw).imp fun _ hb => hb.1, hdetect.1.symm, hdetect.2.symm⟩

theorem Starts.sized {nan : D} (h : Starts nan rules s) : Sized rules s := by
  rcases h with ⟨seeded, rfl⟩ | ⟨s', hs', rfl⟩
  · exact sized_new rules seeded
  · exact hs'.sized.reset

theorem Starts.remembers {nan : D} (h : Starts nan rules s) :
    Remembers rules (fun _ => none) s := by
  rcases h with ⟨seeded, rfl⟩ | ⟨s', hs', rfl⟩
  · exact List.map_const'.symm
  · simp [Remembers, sessionReset, remembered, List.map_const', hs'.sized.transitions]

theorem log_events {nan : D} {s' : Session D} {ts : List (Tick D)}
    (hs : Sized rules s) (hbefore : Remembers rules before s)
    (hok : ∀ r ∈ log nan rules s ts, ∃ events, r.1 = .ok events) {k : Nat}
    (hk : (log nan rules s ts)[k]? = some (.ok events, s')) :
    (∀ w ∈ rules.watches, ∃ b, truth s' w.exprName = some b) ∧
      events = expected rules.watches
        (if k = 0 then before else truthBefore (log nan rules s ts) k) (truth s') := by
  induction ts generalizing s before k with
  | nil => simp [log] at hk
  | cons t ts ih =>
    rw [log] at hk hok
    obtain ⟨first, hfirst⟩ := hok _ List.mem_cons_self
    have htick : tick nan rules t s = (.ok first, (tick nan rules t s).2) := Prod.ext hfirst rfl
    obtain ⟨htruth, hfired, hnext⟩ := tick_ok hs hbefore htick
    cases k with
    | zero =>
      simp only [List.getElem?_cons_zero, Option.some.injEq] at hk
      rw [hk] at htruth hfired hfirst
      cases hfirst
      exact ⟨htruth, hfired⟩
    | succ k =>
      rw [List.getElem?_cons_succ] at hk
      obtain ⟨htruth', hevents⟩ := ih (hs.tick t) hnext (fun r hr => hok r (List.mem_cons_of_mem _ hr)) hk
      refine ⟨htruth', hevents.trans ?_⟩
      cases k with
      | zero => rfl
      | succ k => rfl

/-- Over every run of successful ticks since the creation or the last reset, each tick finds every watched expression
    true or false and reports exactly the events that the watches call for, in the order of the watches. -/
theorem tick_events (nan : D) (rules : Rules D) (s s' : Session D) (ts : List (Tick D)) (k : Nat)
    (events : List (Event D)) (hstart : Starts nan rules s)
    (hok : ∀ r ∈ log nan rules s ts, ∃ events, r.1 = .ok events)
    (hk : (log nan rules s ts)[k]? = some (.ok events, s')) :
    (∀ w ∈ rules.watches, ∃ b, truth s' w.exprName = some b) ∧
      events = expected rules.watches (truthBefore (log nan rules s ts) k) (truth s') := by
  obtain ⟨htruth, hevents⟩ := log_events hstart.sized hstart.remembers hok hk
  refine ⟨htruth, hevents.trans ?_⟩
  cases k with
  | zero => rfl
  | succ k => rfl

/-- One expression `e` with a watch of each kind, and ticks that evaluate it to given values. -/
def demoRules : Rules Int where
  exprs := [("e", "x > 0")]
  evalOrder := [0]
  watches := [⟨"e", .rising⟩, ⟨"e", .falling⟩, ⟨"e", .level⟩, ⟨"e", .changed⟩]
  sources := []
  tracked := []
  watch_known := by decide
  order_complete := by decide

def demoTick (b : Bool) : Tick Int where
  prepare := id
  index := none
  current _ _ _ := 0
  evalEntry _ _ _ calls := (.ok (.bool b), calls)

def demoEvents : List (Event Int) := [⟨"e", .falling, .bool false⟩, ⟨"e", .changed, .bool false⟩]

theorem tick_events_demo :
    let results := log 0 demoRules (sessionNew demoRules {}) [demoTick true, demoTick false]
    ∃ s', results[1]? = some (.ok demoEvents, s') ∧
      demoEvents = expected demoRules.watches (truthBefore results 1) (truth s') := by
  have hk : (log 0 demoRules (sessionNew demoRules {}) [demoTick true, demoTick false])[1]? = some (.ok demoEvents,
      (tick 0 demoRules (demoTick false) (tick 0 demoRules (demoTick true) (sessionNew demoRules {})).2).2) := by
    simp [log, tick, advance, demoTick, demoRules, demoEvents, sessionNew, evaluatorEval, evalLoop, clear, store,
      supported, Value.type, detect, Expression.get, fires, Transition.initial, valueToDouble, Double.ofBool, Double.ne,
      Double.isnan_eq]
  refine ⟨_, hk, ?_⟩
  refine (tick_events 0 demoRules (sessionNew demoRules {}) _ [demoTick true, demoTick false] 1 _
    (Or.inl ⟨{}, rfl⟩) ?_ hk).2
  simp [log, tick, advance, demoTick, demoRules, sessionNew, evaluatorEval, evalLoop, clear, store, supported,
    Value.type, detect, Expression.get]

end Cxpr.Engine
