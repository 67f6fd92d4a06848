import Cxpr.Engine.Reset

/-! What a call with arguments reads of the ticks before (`engine_arg_ring_*` in `src/engine/source.c`). The ring of the
    arguments gets a sample in the ticks that reach the call and counts samples, not ticks. -/

namespace Cxpr.Engine
open Expression
variable {D : Type} [Double D]

omit [Double D] in
structure Asked (D : Type) where
  source : String
  args : List D
  offset : Nat
  answer : D

def Inquiry.asked (nan : D) (host : Host D) (rules : Rules D) (s : Session D) (entries : List (Entry D)) :
    Inquiry D → Calls D → List (Asked D)
  | .done _ _ _, _ => []
  | .call source args offset next, c =>
    match s.sources.findIdx? (·.name == source) with
    | none => asked nan host rules s entries (next none) c
    | some i =>
      match s.sources[i]? with
      | none => asked nan host rules s entries (next none) c
      | some src =>
        let (v, c) := resolveSourceCall nan host s i src args offset c
        ⟨source, args, offset, v⟩ :: asked nan host rules s entries (next (some v)) c
  | .tracked index lookback next, c =>
    asked nan host rules s entries (next (trackedExpressionValue rules s entries index lookback)) c

def Turn.evalAsked (nan : D) (rules : Rules D) (turn : Turn D) (s : Session D) (idx : Nat) (entries : List (Entry D))
    (p : Calls D × List (Asked D)) : Except Error (Value D) × Calls D × List (Asked D) :=
  let q := turn.evaluate (scope s) s.cursor idx entries p.1.cachedStructs p.1.evalMemo
  let (result, c) := q.run nan turn.host rules s entries p.1
  (result, c, p.2 ++ q.asked nan turn.host rules s entries p.1)

def asked (nan : D) (rules : Rules D) (turn : Turn D) (s : Session D) : List (Asked D) :=
  let s := advance nan (turn.tick nan rules) s
  (evaluatorEval (turn.evalAsked nan rules s) rules.evalOrder s.entries
    ({ argRings := s.argRings, sourceMemo := s.sourceMemo }, [])).2.2.2

def history (nan : D) (rules : Rules D) : Session D → List (Turn D) → List (Turn D × List (Asked D))
  | _, [] => []
  | s, turn :: turns =>
    (turn, asked nan rules turn s) :: history nan rules (tick nan rules (turn.tick nan rules) s).2 turns

def asks (name : String) (a : List D) (log : List (Asked D)) : Bool := log.any fun x => x.source == name && argsEqual a x.args

/-- The calls that the ring of `a` serves have the arguments `a`: no others equal them as doubles. -/
def Tidy (name : String) (a : List D) (log : List (Asked D)) : Prop :=
  ∀ x ∈ log, x.source = name → argsEqual a x.args = true → x.args = a

/-- The samples that the ring of `a` has of the ticks before: arguments that are not equal to themselves get a new ring
    in every call. -/
def kept (a past : List D) : List D := if argsEqual a a then past else []

def look (nan : D) (cap : Option Nat) (a : List D) (v : D) (past : List D) (offset : Nat) : D :=
  match cap with
  | none => v
  | some cap => (((v :: kept a past).take cap)[offset]?).getD nan

/-- A point of an evaluation: `past` are the samples of the ticks before, the newest one first. -/
structure Caught (nan : D) (i : Nat) (name : String) (cap : Option Nat) (a : List D) (cursor : Int) (v : D) (past : List D)
    (p : Calls D × List (Asked D)) : Prop where
  ring : ∀ n, cap = some n → argsEqual a a = true →
    (argRing p.1.argRings name a n).ring.Holds (if asks name a p.2 then v :: past else past) ∧
      (argRing p.1.argRings name a n).ring.slots.length = n ∧
      ((argRing p.1.argRings name a n).lastAppendCursor = cursor ↔ asks name a p.2 = true) ∧
      (argRing p.1.argRings name a n).lastAppendCursor ≤ cursor
  memo : ∀ e ∈ p.1.sourceMemo, e.src = i → argsEqual e.args a = true →
    asks name a p.2 = true ∧ e.value = look nan cap a v past e.offset
  answers : ∀ x ∈ p.2, x.source = name → x.args = a → x.answer = look nan cap a v past x.offset

theorem asks_append (name : String) (a : List D) (log log' : List (Asked D)) :
    asks name a (log ++ log') = (asks name a log || asks name a log') := List.any_append

variable {name : String} {a : List D}

theorem asks_singleton {x : Asked D} :
    asks name a [x] = true ↔ x.source = name ∧ argsEqual a x.args = true := by
  simp [asks]

theorem argsEqual_self_of_right {b : List D} (h : argsEqual b a = true) : argsEqual a a = true :=
  argsEqual_trans (argsEqual_symm h) h

theorem holds_sampled {n : Nat} (hn : 0 < n) {cursor : Int} (hcursor : 0 ≤ cursor) {v : D}
    {past : List D} {rings : List (ArgRing D)} {sampled : Bool}
    (h : argsEqual a a = true →
      (argRing rings name a n).ring.Holds (if sampled then v :: past else past) ∧
        (argRing rings name a n).ring.slots.length = n ∧
        ((argRing rings name a n).lastAppendCursor = cursor ↔ sampled = true) ∧
        (argRing rings name a n).lastAppendCursor ≤ cursor) :
    ((argRing rings name a n).append cursor v).ring.Holds (v :: kept a past) ∧
      ((argRing rings name a n).append cursor v).ring.slots.length = n ∧
      ((argRing rings name a n).append cursor v).lastAppendCursor = cursor := by
  by_cases hself : argsEqual a a = true
  · obtain ⟨hring, hlength, hlast, _⟩ := h hself
    rw [kept, if_pos hself]
    unfold ArgRing.append
    cases sampled with
    | true =>
      rw [if_pos (hlast.mpr rfl)]
      exact ⟨hring, hlength, hlast.mpr rfl⟩
    | false =>
      rw [if_neg fun heq => nomatch hlast.mp heq]
      exact ⟨hring.append v, ((argRing rings name a n).ring.length_append v).trans hlength, rfl⟩
  · -- no ring serves the arguments, so the call gets a new one
    have hnew : argRing rings name a n = ArgRing.new name a n := by
      have hnone : rings.find? (ArgRing.serves name a) = none := by
        rw [List.find?_eq_none]
        intro e _ hserves
        obtain ⟨_, hargs⟩ : e.source = name ∧ argsEqual e.args a = true := by simpa [ArgRing.serves] using hserves
        exact hself (argsEqual_self_of_right hargs)
      rw [argRing, hnone]
      rfl
    have hslots : (List.replicate n (Double.zero : D)).length = n := List.length_replicate
    have hempty : (ArgRing.new name a n).ring.Holds ([] : List D) := RingBuffer.holds_empty (by rwa [hslots])
    have hne : ¬ (ArgRing.new name a n).lastAppendCursor = cursor := by
      show ¬ (-1 : Int) = cursor
      omega
    rw [hnew, kept, if_neg hself, ArgRing.append, if_neg hne]
    exact ⟨hempty.append v, ((ArgRing.new name a n).ring.length_append v).trans hslots, rfl⟩

theorem resolveSourceCall_cases (nan : D) (host : Host D) (s : Session D) (i : Nat) (src : Source D) (args : List D)
    (offset : Nat) (c : Calls D) :
    (∃ e ∈ c.sourceMemo, e.src = i ∧ e.offset = offset ∧ argsEqual e.args args = true ∧
      resolveSourceCall nan host s i src args offset c = (e.value, c)) ∨
    resolveSourceCall nan host s i src args offset c =
      ((sourceValue nan host s i src args offset c.argRings).1,
        { c with
          argRings := (sourceValue nan host s i src args offset c.argRings).2
          sourceMemo := sourceMemoSet s.sourceMemoCap c.sourceMemo
            ⟨i, args, offset, (sourceValue nan host s i src args offset c.argRings).1⟩ }) := by
  unfold resolveSourceCall sourceMemoGet
  rcases hfind : c.sourceMemo.find? _ with _ | e
  · exact .inr rfl
  · have hkey := List.find?_some hfind
    simp only [Bool.and_eq_true, beq_iff_eq] at hkey
    obtain ⟨⟨hsrc, hoffset⟩, hargs⟩ := hkey
    exact .inl ⟨e, List.mem_of_find?_eq_some hfind, hsrc, hoffset, hargs, rfl⟩

omit [Double D] in
theorem mem_sourceMemoSet {cap : Nat} {memo : List (SourceMemo D)} {entry e : SourceMemo D}
    (h : e ∈ sourceMemoSet cap memo entry) : e ∈ memo ∨ e = entry := by
  unfold sourceMemoSet at h
  split at h
  · exact .inl h
  · rcases List.mem_append.mp h with h | h
    · exact .inl h
    · exact .inr (List.mem_singleton.mp h)

theorem argRing_sourceValue_of_other (nan : D) (host : Host D) (s : Session D) (i : Nat) (src : Source D) {args : List D}
    (offset : Nat) (rings : List (ArgRing D))
    (hother : ¬ (name = src.name ∧ argsEqual args a = true)) (n : Nat) :
    argRing (sourceValue nan host s i src args offset rings).2 name a n = argRing rings name a n := by
  unfold sourceValue
  split
  · rcases src.ring with _ | r
    · cases args <;> rfl
    · cases args with
      | nil => rfl
      | cons x args => exact (argRing_upsert rings src.name _ _ (ArgRing.append_key s.cursor _) name a n).trans (if_neg hother)
  · rfl

structure Pulled (s : Session D) (i : Nat) (src : Source D) : Prop where
  found : s.sources.findIdx? (·.name == src.name) = some i
  source : s.sources[i]? = some src
  pull : src.pull = true
  roomy : ∀ r, src.ring = some r → 0 < r.slots.length

section
variable {nan : D} {host : Host D} {s : Session D} {i : Nat} {src : Source D} {a past : List D} {p : Calls D × List (Asked D)}

theorem Caught.sourceValue (hs : Pulled s i src) (ha : a ≠ []) (hcursor : 0 ≤ s.cursor)
    (h : Caught nan i src.name src.shape.cap a s.cursor (host.pull src.name a) past p) (offset : Nat) :
    (Engine.sourceValue nan host s i src a offset p.1.argRings).1 =
        look nan src.shape.cap a (host.pull src.name a) past offset ∧
      ∀ n, src.shape.cap = some n → argsEqual a a = true →
        (argRing (Engine.sourceValue nan host s i src a offset p.1.argRings).2 src.name a n).ring.Holds
            (host.pull src.name a :: past) ∧
          (argRing (Engine.sourceValue nan host s i src a offset p.1.argRings).2 src.name a n).ring.slots.length = n ∧
          (argRing (Engine.sourceValue nan host s i src a offset p.1.argRings).2 src.name a n).lastAppendCursor = s.cursor := by
  obtain ⟨x, a, rfl⟩ : ∃ x l, a = x :: l := List.exists_cons_of_ne_nil ha
  unfold Engine.sourceValue
  rw [if_pos hs.pull]
  rcases hring : src.ring with _ | r
  · have hcap : src.shape.cap = none := by simp [Source.shape, hring]
    rw [hcap]
    exact ⟨rfl, fun n hn => by cases hn⟩
  · have hcap : src.shape.cap = some r.slots.length := by simp [Source.shape, hring]
    have hsampled := holds_sampled (hs.roomy r hring) hcursor (h.ring r.slots.length hcap)
    rw [hcap]
    refine ⟨?_, ?_⟩
    · show ((ArgRing.append _ _ _).ring.read offset).getD nan = _
      rw [hsampled.1.read, hsampled.2.1]
      rfl
    · rintro n hn hself
      cases hn
      dsimp only
      rw [argRing_upsert p.1.argRings src.name (x :: a) r.slots.length (ArgRing.append_key s.cursor _), if_pos ⟨rfl, hself⟩]
      rw [kept, if_pos hself] at hsampled
      exact hsampled

theorem Caught.call_same (hs : Pulled s i src) (ha : a ≠ []) (hcursor : 0 ≤ s.cursor)
    (h : Caught nan i src.name src.shape.cap a s.cursor (host.pull src.name a) past p) (offset : Nat) :
    Caught nan i src.name src.shape.cap a s.cursor (host.pull src.name a) past
      ((resolveSourceCall nan host s i src a offset p.1).2,
        p.2 ++ [⟨src.name, a, offset, (resolveSourceCall nan host s i src a offset p.1).1⟩]) := by
  have hasks : argsEqual a a = true → ∀ v, asks src.name a (p.2 ++ [⟨src.name, a, offset, v⟩]) = true := by
    intro hself v
    rw [asks_append, Bool.or_eq_true]
    exact .inr (asks_singleton.mpr ⟨rfl, hself⟩)
  rcases resolveSourceCall_cases nan host s i src a offset p.1 with ⟨e, he, hi, rfl, hargs, heq⟩ | heq
  · obtain ⟨hasked, hvalue⟩ := h.memo e he hi hargs
    rw [heq]
    refine ⟨fun n hn hself => ?_, fun e' he' hi' hargs' => ?_, fun x hx hname hxa => ?_⟩
    · obtain ⟨hring, hlength, hlast, hle⟩ := h.ring n hn hself
      rw [if_pos hasked] at hring
      rw [hasks hself]
      exact ⟨hring, hlength, ⟨fun _ => rfl, fun _ => hlast.mpr hasked⟩, hle⟩
    · exact ⟨hasks (argsEqual_self_of_right hargs') _, (h.memo e' he' hi' hargs').2⟩
    · rcases List.mem_append.mp hx with hx | hx
      · exact h.answers x hx hname hxa
      · obtain rfl := List.mem_singleton.mp hx
        exact hvalue
  · obtain ⟨hvalue, hrings⟩ := h.sourceValue hs ha hcursor offset
    rw [heq]
    refine ⟨fun n hn hself => ?_, fun e' he' hi' hargs' => ?_, fun x hx hname hxa => ?_⟩
    · obtain ⟨hring, hlength, hlast⟩ := hrings n hn hself
      rw [hasks hself]
      exact ⟨hring, hlength, ⟨fun _ => rfl, fun _ => hlast⟩, Int.le_of_eq hlast⟩
    · refine ⟨hasks (argsEqual_self_of_right hargs') _, ?_⟩
      rcases mem_sourceMemoSet he' with he' | rfl
      · exact (h.memo e' he' hi' hargs').2
      · exact hvalue
    · rcases List.mem_append.mp hx with hx | hx
      · exact h.answers x hx hname hxa
      · obtain rfl := List.mem_singleton.mp hx
        exact hvalue

theorem Caught.call_other (hs : Pulled s i src)
    (h : Caught nan i src.name src.shape.cap a s.cursor (host.pull src.name a) past p) {j : Nat} {src' : Source D}
    (hj : s.sources[j]? = some src') {args : List D} (offset : Nat)
    (hargs : ¬ (src'.name = src.name ∧ argsEqual a args = true)) (hne : ¬ (src'.name = src.name ∧ args = a)) :
    Caught nan i src.name src.shape.cap a s.cursor (host.pull src.name a) past
      ((resolveSourceCall nan host s j src' args offset p.1).2,
        p.2 ++ [⟨src'.name, args, offset, (resolveSourceCall nan host s j src' args offset p.1).1⟩]) := by
  have hasks : ∀ v, asks src.name a (p.2 ++ [⟨src'.name, args, offset, v⟩]) = asks src.name a p.2 := by
    intro v
    rw [asks_append, Bool.eq_false_iff.mpr fun hx => hargs (asks_singleton.mp hx), Bool.or_false]
  have hanswers : ∀ v, ∀ x ∈ p.2 ++ [⟨src'.name, args, offset, v⟩], x.source = src.name → x.args = a →
      x.answer = look nan src.shape.cap a (host.pull src.name a) past x.offset := by
    intro v x hx hname hxa
    rcases List.mem_append.mp hx with hx | hx
    · exact h.answers x hx hname hxa
    · obtain rfl := List.mem_singleton.mp hx
      exact absurd ⟨hname, hxa⟩ hne
  rcases resolveSourceCall_cases nan host s j src' args offset p.1 with ⟨e, he, hi, rfl, hargs, heq⟩ | heq
  · rw [heq]
    refine ⟨?_, ?_, hanswers _⟩
    · rw [hasks]
      exact h.ring
    · rw [hasks]
      exact h.memo
  · have hother : ¬ (src.name = src'.name ∧ argsEqual args a = true) :=
      fun hsame => hargs ⟨hsame.1.symm, argsEqual_symm hsame.2⟩
    rw [heq]
    refine ⟨fun n hn hself => ?_, fun e' he' hi' hargs' => ?_, hanswers _⟩
    · dsimp only
      rw [hasks, argRing_sourceValue_of_other nan host s j src' offset p.1.argRings hother]
      exact h.ring n hn hself
    · rw [hasks]
      rcases mem_sourceMemoSet he' with he' | rfl
      · exact h.memo e' he' hi' hargs'
      · -- a call that the memo would give to `a` is one of `src`
        have hsame : src' = src := by
          rw [show j = i from hi', hs.source] at hj
          exact (Option.some.inj hj).symm
        exact absurd ⟨congrArg Source.name hsame, argsEqual_symm hargs'⟩ hargs

theorem Tidy.left {name : String} {a : List D} {log log' : List (Asked D)} (h : Tidy name a (log ++ log')) : Tidy name a log :=
  fun x hx => h x (List.mem_append_left _ hx)

theorem Inquiry.caught (hs : Pulled s i src) (ha : a ≠ []) (hcursor : 0 ≤ s.cursor) (rules : Rules D)
    (entries : List (Entry D)) (q : Inquiry D)
    (h : Tidy src.name a p.2 → Caught nan i src.name src.shape.cap a s.cursor (host.pull src.name a) past p)
    (htidy : Tidy src.name a (p.2 ++ q.asked nan host rules s entries p.1)) :
    Caught nan i src.name src.shape.cap a s.cursor (host.pull src.name a) past
      ((q.run nan host rules s entries p.1).2, p.2 ++ q.asked nan host rules s entries p.1) := by
  induction q generalizing p with
  | done result cachedStructs evalMemo =>
    rw [asked, List.append_nil] at htidy ⊢
    exact ⟨(h htidy).ring, (h htidy).memo, (h htidy).answers⟩
  | tracked index lookback next ih => exact ih _ h htidy
  | call source args offset next ih =>
    unfold asked at htidy
    unfold run asked
    rcases hfind : s.sources.findIdx? (·.name == source) with _ | j
    · simp only [hfind] at htidy ⊢
      exact ih none h htidy
    · obtain ⟨hlt, hname, _⟩ := List.findIdx?_eq_some_iff_getElem.mp hfind
      have hj : s.sources[j]? = some s.sources[j] := List.getElem?_eq_getElem hlt
      have hname : s.sources[j].name = source := by simpa using hname
      simp only [hfind, hj] at htidy ⊢
      rw [List.append_cons] at htidy ⊢
      refine ih _ (p := ((resolveSourceCall nan host s j s.sources[j] args offset p.1).2, p.2 ++ [_])) (fun htidy' => ?_) htidy
      have hcaught := h htidy'.left
      have hlast : source = src.name → argsEqual a args = true → args = a :=
        htidy' _ (List.mem_append_right _ (List.mem_singleton_self _))
      by_cases hsame : source = src.name ∧ args = a
      · obtain ⟨rfl, rfl⟩ := hsame
        rw [hs.found] at hfind
        cases hfind
        have hsrc : s.sources[i] = src := Option.some.inj (hj.symm.trans hs.source)
        rw [hsrc]
        exact hcaught.call_same hs ha hcursor offset
      · subst hname
        exact hcaught.call_other hs hj offset (fun heq => hsame ⟨heq.1, hlast heq.1 heq.2⟩) hsame

end

section
variable {nan : D} {rules : Rules D} {s : Session D}

omit [Double D] in
theorem hydrate_argRings (t : Tick D) (s : Session D) (i : Nat) :
    (hydrate t s i).argRings = s.argRings ∧ ((∀ e ∈ s.sourceMemo, e.args = []) → ∀ e ∈ (hydrate t s i).sourceMemo, e.args = []) := by
  unfold hydrate
  rcases s.sources[i]? with _ | src
  · exact ⟨rfl, id⟩
  · dsimp only
    split
    · exact ⟨rfl, id⟩
    · refine ⟨rfl, fun h e he => ?_⟩
      split at he
      · exact h e he
      · rcases mem_sourceMemoSet he with he | rfl
        · exact h e he
        · rfl

omit [Double D] in
theorem hydrates_argRings (t : Tick D) (l : List Nat) (s : Session D) :
    (l.foldl (hydrate t) s).argRings = s.argRings ∧
      ((∀ e ∈ s.sourceMemo, e.args = []) → ∀ e ∈ (l.foldl (hydrate t) s).sourceMemo, e.args = []) := by
  induction l generalizing s with
  | nil => exact ⟨rfl, id⟩
  | cons i l ih =>
    obtain ⟨hrings, hmemo⟩ := ih (hydrate t s i)
    obtain ⟨hrings', hmemo'⟩ := hydrate_argRings t s i
    exact ⟨hrings.trans hrings', fun h => hmemo (hmemo' h)⟩

omit [Double D] in
theorem advance_argRings (nan : D) (t : Tick D) (s : Session D) :
    (advance nan t s).argRings = s.argRings ∧ ∀ e ∈ (advance nan t s).sourceMemo, e.args = [] := by
  obtain ⟨hrings, hmemo⟩ := hydrates_argRings t (List.range s.sources.length) (started t s)
  exact ⟨hrings, hmemo fun e he => by cases he⟩

theorem tick_argRings (nan : D) (rules : Rules D) (t : Tick D) (s : Session D) :
    (tick nan rules t s).2.argRings = (evaluation nan rules t s).2.2.argRings ∧
      (tick nan rules t s).2.cursor = (advance nan t s).cursor := by
  rcases heval : evaluation nan rules t s with ⟨err, entries, c⟩
  cases err with
  | some err =>
    rw [tick_of_failed heval]
    exact ⟨rfl, rfl⟩
  | none =>
    rw [tick_of_evaluated heval]
    exact ⟨rfl, rfl⟩

end

def samples (name : String) (a : List D) (past : List (Turn D × List (Asked D))) : List D :=
  (past.filterMap fun e => if asks name a e.2 then some (e.1.host.pull name a) else none).reverse

theorem samples_append (name : String) (a : List D) (past : List (Turn D × List (Asked D))) (turn : Turn D)
    (log : List (Asked D)) :
    samples name a (past ++ [(turn, log)]) =
      if asks name a log then turn.host.pull name a :: samples name a past else samples name a past := by
  unfold samples
  rw [List.filterMap_append, List.reverse_append]
  by_cases hlog : asks name a log = true
  · simp [hlog]
  · simp [hlog]

structure Between (name : String) (cap : Option Nat) (a : List D) (past : List (Turn D × List (Asked D))) (s : Session D) :
    Prop where
  cursor : s.cursor + 1 = past.length
  ring : ∀ n, cap = some n → argsEqual a a = true →
    (argRing s.argRings name a n).ring.Holds (samples name a past) ∧
      (argRing s.argRings name a n).ring.slots.length = n ∧ (argRing s.argRings name a n).lastAppendCursor < past.length

section
variable {nan : D} {rules : Rules D} {f : Frame D} {s : Session D} {i : Nat} {src : Source D} {a : List D}
  {past : List (Turn D × List (Asked D))}

structure Declared (rules : Rules D) (i : Nat) (src : Source D) : Prop where
  found : rules.sources.findIdx? (·.name == src.name) = some i
  source : rules.sources[i]? = some src
  pull : src.pull = true
  fresh : src.Fresh

omit [Double D] in
theorem Declared.pulled (hsrc : Declared rules i src) (h : Grown rules f s) :
    ∃ src', Pulled s i src' ∧ src'.shape = src.shape := by
  obtain ⟨src', hsrc', hshape⟩ := shape_at h.shapes hsrc.source
  have hname : src'.name = src.name := congrArg Shape.name hshape
  refine ⟨src', ⟨?_, hsrc', (congrArg Shape.pull hshape).trans hsrc.pull, fun r hr => ?_⟩, hshape⟩
  · rw [findSource_congr h.shapes, hname, hsrc.found]
  · have hcap : src.ring.map (·.slots.length) = some r.slots.length := by
      have hcaps := congrArg Shape.cap hshape
      simpa [Source.shape, hr] using hcaps.symm
    obtain ⟨r₀, hr₀, hlength⟩ := Option.map_eq_some_iff.mp hcap
    rw [← hlength]
    exact (hsrc.fresh r₀ hr₀).1

def Tracks (nan : D) (i : Nat) (name : String) (cap : Option Nat) (a : List D) (cursor : Int) (v : D) (past : List D)
    (c : Calls D) (p : Calls D × List (Asked D)) : Prop :=
  p.1 = c ∧ (Tidy name a p.2 → Caught nan i name cap a cursor v past p)

theorem Between.asked (hsrc : Declared rules i src) (ha : a ≠ []) (hgrown : Grown rules f s)
    (h : Between src.name src.shape.cap a past s) {turn : Turn D} (hindex : turn.index = none ∨ turn.index = some past.length)
    (htidy : Tidy src.name a (Engine.asked nan rules turn s)) :
    (advance nan (turn.tick nan rules) s).cursor = past.length ∧
      Caught nan i src.name src.shape.cap a past.length (turn.host.pull src.name a) (samples src.name a past)
        ((evaluation nan rules (turn.tick nan rules) s).2.2, Engine.asked nan rules turn s) := by
  have hcursor : (advance nan (turn.tick nan rules) s).cursor = past.length := by
    rw [advance_cursor, show (turn.tick nan rules).index = turn.index from rfl]
    rcases hindex with hindex | hindex
    · rw [hindex]
      exact h.cursor
    · rw [hindex]
      rfl
  refine ⟨hcursor, ?_⟩
  obtain ⟨src', hpulled, hshape⟩ := hsrc.pulled (hgrown.advance nan turn)
  have hname : src'.name = src.name := congrArg Shape.name hshape
  obtain ⟨hrings, hmemo⟩ := advance_argRings nan (turn.tick nan rules) s
  have hstart : Caught nan i src'.name src'.shape.cap a (advance nan (turn.tick nan rules) s).cursor
      (turn.host.pull src'.name a) (samples src.name a past)
      ({ argRings := (advance nan (turn.tick nan rules) s).argRings
         sourceMemo := (advance nan (turn.tick nan rules) s).sourceMemo }, []) := by
    refine ⟨fun n hn hself => ?_, fun e he _ hargs => ?_, fun x hx => nomatch hx⟩
    · rw [hshape] at hn
      obtain ⟨hring, hlength, hlast⟩ := h.ring n hn hself
      rw [hname, hcursor]
      dsimp only
      rw [hrings]
      exact ⟨hring, hlength, ⟨fun heq => absurd heq (Int.ne_of_lt hlast), fun hasked => nomatch hasked⟩, Int.le_of_lt hlast⟩
    · rw [hmemo e he] at hargs
      cases a with
      | nil => exact absurd rfl ha
      | cons x a => cases hargs
  have hentry : ∀ idx entries c p, Tracks nan i src'.name src'.shape.cap a (advance nan (turn.tick nan rules) s).cursor
        (turn.host.pull src'.name a) (samples src.name a past) c p →
      (turn.evalAsked nan rules (advance nan (turn.tick nan rules) s) idx entries p).1 =
          ((turn.tick nan rules).evalEntry (advance nan (turn.tick nan rules) s) idx entries c).1 ∧
        Tracks nan i src'.name src'.shape.cap a (advance nan (turn.tick nan rules) s).cursor
          (turn.host.pull src'.name a) (samples src.name a past)
          ((turn.tick nan rules).evalEntry (advance nan (turn.tick nan rules) s) idx entries c).2
          (turn.evalAsked nan rules (advance nan (turn.tick nan rules) s) idx entries p).2 := by
    rintro idx entries c ⟨c', log⟩ ⟨rfl, hc⟩
    rw [Turn.evalEntry_eq]
    exact ⟨rfl, rfl, Inquiry.caught hpulled ha (hcursor ▸ Int.natCast_nonneg _) rules entries _ hc⟩
  obtain ⟨_, _, heq, hcaught⟩ := evalLoop_related hentry rules.evalOrder
    (clear (advance nan (turn.tick nan rules) s).entries) ⟨rfl, fun _ => hstart⟩
  have hpair : (evaluatorEval (turn.evalAsked nan rules (advance nan (turn.tick nan rules) s)) rules.evalOrder
      (advance nan (turn.tick nan rules) s).entries
      ({ argRings := (advance nan (turn.tick nan rules) s).argRings
         sourceMemo := (advance nan (turn.tick nan rules) s).sourceMemo }, [])).2.2 =
      ((evaluation nan rules (turn.tick nan rules) s).2.2, Engine.asked nan rules turn s) := Prod.ext heq rfl
  rw [← hpair, ← hcursor, ← hname, ← hshape]
  rw [← hname] at htidy
  exact hname.symm ▸ hcaught htidy

theorem Between.tick (hsrc : Declared rules i src) (ha : a ≠ []) (hgrown : Grown rules f s)
    (h : Between src.name src.shape.cap a past s) {turn : Turn D} (hindex : turn.index = none ∨ turn.index = some past.length)
    (htidy : Tidy src.name a (Engine.asked nan rules turn s)) :
    Between src.name src.shape.cap a (past ++ [(turn, Engine.asked nan rules turn s)])
      (Engine.tick nan rules (turn.tick nan rules) s).2 := by
  obtain ⟨hcursor, hcaught⟩ := h.asked hsrc ha hgrown hindex htidy
  obtain ⟨hrings, hcursor'⟩ := tick_argRings nan rules (turn.tick nan rules) s
  have hlen : ((past ++ [(turn, Engine.asked nan rules turn s)]).length : Int) = past.length + 1 := by simp
  refine ⟨?_, fun n hn hself => ?_⟩
  · rw [hcursor', hcursor, hlen]
  · obtain ⟨hring, hlength, _, hle⟩ := hcaught.ring n hn hself
    rw [hrings, samples_append, hlen]
    exact ⟨hring, hlength, Int.lt_add_one_of_le hle⟩

theorem Between.history (hsrc : Declared rules i src) (ha : a ≠ []) (turns : List (Turn D)) (hgrown : Grown rules f s)
    (h : Between src.name src.shape.cap a past s)
    (hindex : ∀ t turn, turns[t]? = some turn → turn.index = none ∨ turn.index = some (past.length + t))
    (htidy : ∀ e ∈ Engine.history nan rules s turns, Tidy src.name a e.2) {t : Nat} {turn : Turn D} {log : List (Asked D)}
    (hlog : (Engine.history nan rules s turns)[t]? = some (turn, log)) {x : Asked D} (hx : x ∈ log)
    (hname : x.source = src.name) (hxa : x.args = a) :
    x.answer = look nan src.shape.cap a (turn.host.pull src.name a)
      (samples src.name a (past ++ (Engine.history nan rules s turns).take t)) x.offset := by
  induction turns generalizing s f past t with
  | nil => cases hlog
  | cons turn₀ turns ih =>
    have hindex₀ := hindex 0 turn₀ rfl
    have htidy₀ := htidy _ List.mem_cons_self
    cases t with
    | zero =>
      cases hlog
      rw [List.take_zero, List.append_nil]
      exact (h.asked hsrc ha hgrown hindex₀ htidy₀).2.answers x hx hname hxa
    | succ t =>
      have hrest := ih (hgrown.tick nan turn₀) (h.tick hsrc ha hgrown hindex₀ htidy₀) (fun t' turn' hturn' => ?_)
        (fun e he => htidy e (List.mem_cons_of_mem _ he)) hlog
      · rw [hrest, List.append_assoc]
        rfl
      · rw [List.length_append, Nat.add_assoc, Nat.add_comm _ t']
        exact hindex (t' + 1) turn' hturn'

end

/-! ### Lookbacks that are right -/

omit [Double D] in
/-- The source is called with the arguments `a`. -/
def AskedFor (name : String) (a : List D) (log : List (Asked D)) : Prop := ∃ x ∈ log, x.source = name ∧ x.args = a

omit [Double D] in
/-- The source was sampled for `a` at tick `t` of the run `h`. -/
def SampledAt (name : String) (a : List D) (h : List (Turn D × List (Asked D))) (t : Nat) : Prop :=
  ∃ e, h[t]? = some e ∧ AskedFor name a e.2

omit [Double D] in
/-- At tick `t`, the answer `n` ticks back is the sample of tick `t - n`, or NaN when there is none. -/
def Right (nan : D) (name : String) (a : List D) (h : List (Turn D × List (Asked D))) (t n : Nat) (answer : D) : Prop :=
  (∀ turn log, n ≤ t → h[t - n]? = some (turn, log) → AskedFor name a log → answer = turn.host.pull name a) ∧
    ((n ≤ t → ¬ SampledAt name a h (t - n)) → answer = nan)

open Classical in
/-- At tick `t` the samples and the ticks are in step `n` back: every tick from there on was sampled and the ring has room
    for them, or the tick there was not and the ring has no sample so deep. -/
def InStep (src : Source D) (a : List D) (h : List (Turn D × List (Asked D))) (t n : Nat) : Prop :=
  n = 0 ∨ ∃ r, src.ring = some r ∧
    ((argsEqual a a = true ∧ n < r.slots.length ∧ n ≤ t ∧ ∀ k ≤ n, SampledAt src.name a h (t - k)) ∨
      ((n ≤ t → ¬ SampledAt src.name a h (t - n)) ∧
        (argsEqual a a = false ∨ r.slots.length ≤ n ∨
          (h.take (t + 1)).countP (fun e => decide (AskedFor src.name a e.2)) ≤ n)))

/-- The condition on a run: the ticks follow one another, no other arguments equal `a` as doubles, and every call for `a`
    is in step. -/
structure Steady (src : Source D) (a : List D) (h : List (Turn D × List (Asked D))) : Prop where
  index : ∀ t (turn : Turn D) log, h[t]? = some (turn, log) → turn.index = none ∨ turn.index = some t
  tidy : ∀ e ∈ h, Tidy src.name a e.2
  inStep : ∀ t turn log, h[t]? = some (turn, log) → ∀ x ∈ log, x.source = src.name → x.args = a → InStep src a h t x.offset

theorem history_turns (nan : D) (rules : Rules D) (s : Session D) (turns : List (Turn D)) :
    (history nan rules s turns).map Prod.fst = turns := by
  induction turns generalizing s with
  | nil => rfl
  | cons turn turns ih => exact congrArg (turn :: ·) (ih _)

section
variable {name : String} {a : List D} {h : List (Turn D × List (Asked D))}

variable {log : List (Asked D)}

theorem asks_of_askedFor (hself : argsEqual a a = true) (hlog : AskedFor name a log) :
    asks name a log = true := by
  obtain ⟨x, hx, hname, rfl⟩ := hlog
  exact List.any_eq_true.mpr ⟨x, hx, by simp [hname, hself]⟩

theorem askedFor_of_asks (htidy : Tidy name a log) (hlog : asks name a log = true) :
    AskedFor name a log := by
  obtain ⟨x, hx, hkey⟩ := List.any_eq_true.mp hlog
  simp only [Bool.and_eq_true, beq_iff_eq] at hkey
  exact ⟨x, hx, hkey.1, htidy x hx hkey.1 hkey.2⟩

theorem samples_take_succ {t : Nat} {turn : Turn D} (ht : h[t]? = some (turn, log))
    (hasks : asks name a log = true) : samples name a (h.take (t + 1)) = turn.host.pull name a :: samples name a (h.take t) := by
  rw [List.take_add_one, ht, Option.toList_some, samples_append, if_pos hasks]

theorem samples_of_sampled (hself : argsEqual a a = true) {t n : Nat} (hn : n ≤ t)
    (hall : ∀ k ≤ n, SampledAt name a h (t - k)) :
    ∃ turn log, h[t - n]? = some (turn, log) ∧ (samples name a (h.take (t + 1)))[n]? = some (turn.host.pull name a) := by
  induction n generalizing t with
  | zero =>
    obtain ⟨⟨turn, log⟩, ht, hasked⟩ := hall 0 (Nat.le_refl 0)
    rw [Nat.sub_zero] at ht ⊢
    refine ⟨turn, log, ht, ?_⟩
    rw [samples_take_succ ht (asks_of_askedFor hself hasked)]
    rfl
  | succ n ih =>
    obtain ⟨t, rfl⟩ : ∃ t', t = t' + 1 := ⟨t - 1, by omega⟩
    obtain ⟨⟨turn, log⟩, ht, hasked⟩ := hall 0 (Nat.zero_le _)
    rw [Nat.sub_zero] at ht
    rw [samples_take_succ ht (asks_of_askedFor hself hasked), List.getElem?_cons_succ, Nat.add_sub_add_right]
    refine ih (Nat.le_of_succ_le_succ hn) fun k hk => ?_
    have hk' := hall (k + 1) (Nat.succ_le_succ hk)
    rwa [Nat.add_sub_add_right] at hk'

open Classical in
theorem length_samples_le (past : List (Turn D × List (Asked D))) (htidy : ∀ e ∈ past, Tidy name a e.2) :
    (samples name a past).length ≤ past.countP (fun e => decide (AskedFor name a e.2)) := by
  rw [samples, List.length_reverse, List.length_filterMap_eq_countP]
  refine List.countP_mono_left fun e he hsome => ?_
  by_cases hasks : asks name a e.2 = true
  · exact decide_eq_true (askedFor_of_asks (htidy e he) hasks)
  · simp [hasks] at hsome

omit [Double D] in
theorem right_of_sampled {nan : D} {t n : Nat} (hn : n ≤ t) {turn : Turn D}
    (ht : h[t - n]? = some (turn, log)) (hasked : AskedFor name a log) :
    Right nan name a h t n (turn.host.pull name a) := by
  refine ⟨fun turn' log' _ ht' _ => ?_, fun hnone => ?_⟩
  · rw [ht] at ht'
    cases ht'
    rfl
  · exact absurd ⟨_, ht, hasked⟩ (hnone hn)

omit [Double D] in
theorem right_of_missing {nan : D} {t n : Nat} (hnone : n ≤ t → ¬ SampledAt name a h (t - n)) :
    Right nan name a h t n nan :=
  ⟨fun _ _ hn ht hasked => absurd ⟨_, ht, hasked⟩ (hnone hn), fun _ => rfl⟩

end

theorem between_new (rules : Rules D) (seeded : Frame D) {i : Nat} {src : Source D} (hsrc : Declared rules i src) (a : List D) :
    Between src.name src.shape.cap a [] (sessionNew rules seeded) := by
  refine ⟨rfl, fun n hn _ => ?_⟩
  obtain ⟨r, hr, rfl⟩ := Option.map_eq_some_iff.mp hn
  have hslots : (List.replicate r.slots.length (Double.zero : D)).length = r.slots.length := List.length_replicate
  exact ⟨RingBuffer.holds_empty (by rw [hslots]; exact (hsrc.fresh r hr).1), hslots, show (-1 : Int) < 0 by decide⟩

theorem look_zero (nan : D) {src : Source D} (hfresh : src.Fresh) (a : List D) (v : D) (past : List D) :
    look nan src.shape.cap a v past 0 = v := by
  rcases hring : src.ring with _ | r
  · have hcap : src.shape.cap = none := by simp [Source.shape, hring]
    rw [hcap]
    rfl
  · have hcap : src.shape.cap = some r.slots.length := by simp [Source.shape, hring]
    rw [hcap, look, List.getElem?_take_of_lt (hfresh r hring).1]
    rfl

/-- In every run that is steady for some arguments, every lookback of a call with them is right. -/
theorem lookback_right (nan : D) (rules : Rules D) (seeded : Frame D) (turns : List (Turn D)) {i : Nat} {src : Source D}
    (hsrc : Declared rules i src) {a : List D} (ha : a ≠ [])
    (h : Steady src a (history nan rules (sessionNew rules seeded) turns)) :
    ∀ t turn log, (history nan rules (sessionNew rules seeded) turns)[t]? = some (turn, log) → ∀ x ∈ log,
      x.source = src.name → x.args = a →
        Right nan src.name a (history nan rules (sessionNew rules seeded) turns) t x.offset x.answer := by
  intro t turn log hlog x hx hname hxa
  have hindex : ∀ t turn, turns[t]? = some turn → turn.index = none ∨ turn.index = some (0 + t) := by
    intro t turn hturn
    rw [← history_turns nan rules (sessionNew rules seeded) turns, List.getElem?_map] at hturn
    obtain ⟨⟨_, log⟩, ht, rfl⟩ := Option.map_eq_some_iff.mp hturn
    rw [Nat.zero_add]
    exact h.index t _ log ht
  have hanswer := (between_new rules seeded hsrc a).history hsrc ha turns (grown_new rules seeded) hindex h.tidy hlog hx hname hxa
  rw [List.nil_append] at hanswer
  have hasked : AskedFor src.name a log := ⟨x, hx, hname, hxa⟩
  rcases h.inStep t turn log hlog x hx hname hxa with hzero | ⟨r, hr, hstep⟩
  · have hnow : x.answer = turn.host.pull src.name a := by
      rw [hanswer, hzero, look_zero nan hsrc.fresh]
    rw [hnow, hzero]
    exact right_of_sampled (Nat.zero_le t) hlog hasked
  · have hcap : src.shape.cap = some r.slots.length := by simp [Source.shape, hr]
    rw [hcap, look] at hanswer
    rcases hstep with ⟨hself, hroom, hle, hall⟩ | ⟨hnone, hdeep⟩
    · obtain ⟨turn', log', ht', hsample⟩ := samples_of_sampled hself hle hall
      rw [kept, if_pos hself, ← samples_take_succ hlog (asks_of_askedFor hself hasked), List.getElem?_take_of_lt hroom,
        hsample, Option.getD_some] at hanswer
      obtain ⟨e, he, hasked'⟩ := hall x.offset (Nat.le_refl _)
      rw [ht'] at he
      cases he
      rw [hanswer]
      exact right_of_sampled hle ht' hasked'
    · have hpos : x.offset ≠ 0 := by
        intro hzero
        rw [hzero] at hnone
        exact hnone (Nat.zero_le t) ⟨_, hlog, hasked⟩
      have hdry : ((turn.host.pull src.name a :: kept a (samples src.name a
          ((history nan rules (sessionNew rules seeded) turns).take t))).take r.slots.length)[x.offset]? = none := by
        by_cases hfull : r.slots.length ≤ x.offset
        · exact List.getElem?_take_eq_none hfull
        rw [List.getElem?_take_of_lt (Nat.not_le.mp hfull), List.getElem?_eq_none_iff]
        by_cases hself : argsEqual a a = true
        · have hfew := (hdeep.resolve_left (by simp [hself])).resolve_left hfull
          rw [kept, if_pos hself, ← samples_take_succ hlog (asks_of_askedFor hself hasked)]
          exact Nat.le_trans (length_samples_le _ fun e he => h.tidy e (List.mem_of_mem_take he)) hfew
        · rw [kept, if_neg hself]
          exact Nat.one_le_iff_ne_zero.mpr hpos
      rw [hdry, Option.getD_none] at hanswer
      rw [hanswer]
      exact right_of_missing hnone

/-- The source of `wellRules`. -/
def wellSource : Source Int := { name := "well", pull := true, hydrateBare := true, ring := some ⟨[0, 0], 0, 0⟩ }

theorem wellSource_declared : Declared wellRules 0 wellSource where
  found := rfl
  source := rfl
  pull := rfl
  fresh := by
    intro r hr
    cases hr
    decide

theorem well_lookback_right :
    Steady wellSource [1] (history (-1) wellRules (sessionNew wellRules {}) [wellTurn 3, wellTurn 4]) ∧
      ∀ t turn log, (history (-1) wellRules (sessionNew wellRules {}) [wellTurn 3, wellTurn 4])[t]? = some (turn, log) →
        ∀ x ∈ log, x.source = "well" → x.args = [1] →
          Right (-1) "well" [1] (history (-1) wellRules (sessionNew wellRules {}) [wellTurn 3, wellTurn 4]) t x.offset x.answer := by
  have hhistory : history (-1) wellRules (sessionNew wellRules {}) [wellTurn 3, wellTurn 4] =
      [(wellTurn 3, [⟨"well", [1], 1, -1⟩]), (wellTurn 4, [⟨"well", [1], 1, 4⟩])] := rfl
  have hsteady : Steady wellSource [1] (history (-1) wellRules (sessionNew wellRules {}) [wellTurn 3, wellTurn 4]) := by
    rw [hhistory]
    refine ⟨?_, ?_, ?_⟩
    · intro t turn log ht
      match t, ht with
      | 0, ht => cases ht; exact .inl rfl
      | 1, ht => cases ht; exact .inl rfl
    · intro e he x hx _ _
      rcases List.mem_cons.mp he with rfl | he
      · obtain rfl := List.mem_singleton.mp hx
        rfl
      · obtain rfl := List.mem_singleton.mp he
        obtain rfl := List.mem_singleton.mp hx
        rfl
    · intro t turn log ht x hx _ _
      match t, ht with
      | 0, ht =>
        cases ht
        obtain rfl := List.mem_singleton.mp hx
        exact .inr ⟨_, rfl, .inr ⟨fun hle => absurd hle (by decide), .inr (.inr List.countP_le_length)⟩⟩
      | 1, ht =>
        cases ht
        obtain rfl := List.mem_singleton.mp hx
        refine .inr ⟨_, rfl, .inl ⟨rfl, by decide, Nat.le_refl 1, fun k hk => ?_⟩⟩
        match k, hk with
        | 0, _ => exact ⟨_, rfl, _, List.mem_singleton_self _, rfl, rfl⟩
        | 1, _ => exact ⟨_, rfl, _, List.mem_singleton_self _, rfl, rfl⟩
  exact ⟨hsteady, lookback_right (-1) wellRules {} [wellTurn 3, wellTurn 4] wellSource_declared (by decide) hsteady⟩

def gateTurn (v : Int) : Turn Int where
  settings := []
  index := none
  host := ⟨fun _ args => v + args.sum, fun _ => .column []⟩
  evaluate := fun _ cursor _ _ cachedStructs evalMemo =>
    if cursor = 1 then .done (.ok (.bool false)) cachedStructs evalMemo
    else .call "well" [1] 1 fun v => .done (.ok (.number (v.getD 0))) cachedStructs evalMemo

/-- At tick 2 the call looks back one sample and gets that of tick 0; tick 1 was not sampled. -/
theorem gated_lookback_wrong :
    (history (-1) wellRules (sessionNew wellRules {}) [gateTurn 3, gateTurn 4, gateTurn 5])[2]? =
        some (gateTurn 5, [⟨"well", [1], 1, 4⟩]) ∧
      ¬ SampledAt "well" [1] (history (-1) wellRules (sessionNew wellRules {}) [gateTurn 3, gateTurn 4, gateTurn 5]) 1 ∧
      ¬ Right (-1) "well" [1] (history (-1) wellRules (sessionNew wellRules {}) [gateTurn 3, gateTurn 4, gateTurn 5]) 2 1 4 := by
  have hmissing : ¬ SampledAt "well" [1]
      (history (-1) wellRules (sessionNew wellRules {}) [gateTurn 3, gateTurn 4, gateTurn 5]) 1 := by
    rintro ⟨e, he, x, hx, _⟩
    cases he
    cases hx
  exact ⟨rfl, hmissing, fun hright => absurd (hright.2 fun _ => hmissing) (by decide)⟩

end Cxpr.Engine
