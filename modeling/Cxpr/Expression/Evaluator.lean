import Cxpr.Value

/-! Named expressions evaluated in the order of their dependencies (`src/expression`). -/

namespace Cxpr.Expression
variable {D : Type}

/-- `cxpr_expression_entry`, without the program that computes its result. -/
structure Entry (D : Type) where
  name : String
  expression : String
  result : Value D
  evaluated : Bool

/-- `cxpr_expression_find` and `cxpr_expression_get`. -/
def get (entries : List (Entry D)) (name : String) : Option (Value D) :=
  match entries.find? (·.name = name) with
  | some entry => if entry.evaluated then some entry.result else none
  | none => none

def wrapEvalError (entry : Entry D) (err : Error) : Error :=
  { err with message := s!"Expression '{entry.name}' eval failed: {err.message}; expr: {entry.expression}" }

/-- The start of `cxpr_evaluator_eval`: the results of the last evaluation are disposed of. -/
def clear [Double D] (entries : List (Entry D)) : List (Entry D) :=
  entries.map fun entry => { entry with evaluated := false, result := .number Double.zero }

/-- The types of the results that `cxpr_evaluator_eval` keeps. -/
def supported (value : Value D) : Bool := value.type != .int64

def store (entries : List (Entry D)) (idx : Nat) (value : Value D) : List (Entry D) :=
  entries.modify idx fun entry => { entry with result := value, evaluated := true }

/-- The loop of `cxpr_evaluator_eval`. What evaluates an entry sees the results so far and carries a state of its
    own. -/
def evalLoop {σ : Type} (evalEntry : Nat → List (Entry D) → σ → Except Error (Value D) × σ) :
    List Nat → List (Entry D) → σ → Option Error × List (Entry D) × σ
  | [], entries, s => (none, entries, s)
  | idx :: order, entries, s =>
    let wrap := fun err => match entries[idx]? with | some entry => wrapEvalError entry err | none => err
    match evalEntry idx entries s with
    | (.error err, s) => (some (wrap err), entries, s)
    | (.ok value, s) =>
      if supported value then evalLoop evalEntry order (store entries idx value) s
      else (some (wrap ⟨.typeMismatch, "Expression result has unsupported value type"⟩), entries, s)

def evaluatorEval [Double D] {σ : Type} (evalEntry : Nat → List (Entry D) → σ → Except Error (Value D) × σ)
    (order : List Nat) (entries : List (Entry D)) (s : σ) : Option Error × List (Entry D) × σ :=
  evalLoop evalEntry order (clear entries) s

def Entry.source (entry : Entry D) : String × String := (entry.name, entry.expression)

theorem store_sources (entries : List (Entry D)) (idx : Nat) (value : Value D) :
    (store entries idx value).map Entry.source = entries.map Entry.source := by
  refine List.ext_getElem? fun i => ?_
  simp only [store, List.getElem?_map, List.getElem?_modify]
  cases entries[i]? with
  | none => rfl
  | some entry => by_cases hi : idx = i <;> simp [hi, Entry.source]

theorem clear_sources [Double D] (entries : List (Entry D)) :
    (clear entries).map Entry.source = entries.map Entry.source := by
  simp [clear, Entry.source]

variable {entries entries' : List (Entry D)}

theorem clear_congr [Double D]
    (h : entries'.map Entry.source = entries.map Entry.source) : clear entries' = clear entries := by
  have hclear : ∀ l : List (Entry D), clear l = (l.map Entry.source).map fun p => ⟨p.1, p.2, .number Double.zero, false⟩ := by
    intro l
    simp [clear, Entry.source]
  rw [hclear, hclear, h]

variable {σ : Type} {evalEntry : Nat → List (Entry D) → σ → Except Error (Value D) × σ}

theorem evalLoop_sources (order : List Nat) (entries : List (Entry D)) (s : σ) :
    (evalLoop evalEntry order entries s).2.1.map Entry.source = entries.map Entry.source := by
  induction order generalizing entries s with
  | nil => rfl
  | cons idx order ih =>
    unfold evalLoop
    rcases evalEntry idx entries s with ⟨value | value, s⟩
    · rfl
    · dsimp only
      split
      · rw [ih, store_sources]
      · rfl

theorem evaluatorEval_sources [Double D] (evalEntry : Nat → List (Entry D) → σ → Except Error (Value D) × σ)
    (order : List Nat) (entries : List (Entry D)) (s : σ) :
    (evaluatorEval evalEntry order entries s).2.1.map Entry.source = entries.map Entry.source := by
  rw [evaluatorEval, evalLoop_sources, clear_sources]

theorem evaluatorEval_names [Double D] (evalEntry : Nat → List (Entry D) → σ → Except Error (Value D) × σ)
    (order : List Nat) (entries : List (Entry D)) (s : σ) :
    (evaluatorEval evalEntry order entries s).2.1.map (·.name) = entries.map (·.name) := by
  have h := congrArg (List.map Prod.fst) (evaluatorEval_sources evalEntry order entries s)
  rwa [List.map_map, List.map_map] at h

theorem evalLoop_related {τ : Type} {R : σ → τ → Prop} {evalEntry' : Nat → List (Entry D) → τ → Except Error (Value D) × τ}
    (hentry : ∀ idx entries s s', R s s' →
      (evalEntry' idx entries s').1 = (evalEntry idx entries s).1 ∧ R (evalEntry idx entries s).2 (evalEntry' idx entries s').2)
    (order : List Nat) (entries : List (Entry D)) {s : σ} {s' : τ} (h : R s s') :
    (evalLoop evalEntry' order entries s').1 = (evalLoop evalEntry order entries s).1 ∧
      (evalLoop evalEntry' order entries s').2.1 = (evalLoop evalEntry order entries s).2.1 ∧
      R (evalLoop evalEntry order entries s).2.2 (evalLoop evalEntry' order entries s').2.2 := by
  induction order generalizing entries s s' with
  | nil => exact ⟨rfl, rfl, h⟩
  | cons idx order ih =>
    obtain ⟨hvalue, hstate⟩ := hentry idx entries s s' h
    unfold evalLoop
    rcases heval : evalEntry idx entries s with ⟨value, t⟩
    rcases heval' : evalEntry' idx entries s' with ⟨value', t'⟩
    rw [heval, heval'] at hvalue hstate
    obtain rfl : value' = value := hvalue
    rcases value' with err | value
    · exact ⟨rfl, rfl, hstate⟩
    · dsimp only
      split
      · exact ih _ hstate
      · exact ⟨rfl, rfl, hstate⟩

def Evaluated (entries : List (Entry D)) (idx : Nat) : Prop := ∀ entry, entries[idx]? = some entry → entry.evaluated = true

theorem evaluated_store (entries : List (Entry D)) (idx : Nat) (value : Value D) :
    Evaluated (store entries idx value) idx := by
  intro entry h
  rw [store, List.getElem?_modify_eq] at h
  obtain ⟨_, _, rfl⟩ := Option.map_eq_some_iff.mp h
  rfl

theorem Evaluated.store {entries : List (Entry D)} {i : Nat} (h : Evaluated entries i) (idx : Nat) (value : Value D) :
    Evaluated (store entries idx value) i := by
  intro entry hentry
  by_cases hi : idx = i
  · subst hi
    exact evaluated_store entries idx value entry hentry
  · rw [Expression.store, List.getElem?_modify_ne _ _ hi] at hentry
    exact h entry hentry

theorem evalLoop_evaluated {order : List Nat} {s s' : σ}
    (h : evalLoop evalEntry order entries s = (none, entries', s')) (i : Nat) (hi : i ∈ order ∨ Evaluated entries i) :
    Evaluated entries' i := by
  induction order generalizing entries s with
  | nil =>
    cases h
    rcases hi with hi | hi
    · cases hi
    · exact hi
  | cons idx order ih =>
    unfold evalLoop at h
    rcases heval : evalEntry idx entries s with ⟨value | value, s₁⟩
    · rw [heval] at h
      cases h
    · rw [heval] at h
      dsimp only at h
      split at h
      · refine ih h ?_
        rcases hi with hi | hi
        · rcases List.mem_cons.mp hi with rfl | hi
          · exact Or.inr (evaluated_store entries i value)
          · exact Or.inl hi
        · exact Or.inr (hi.store idx value)
      · cases h

theorem get_evaluatorEval [Double D] {order : List Nat} {s s' : σ}
    (hall : ∀ i < entries.length, i ∈ order) (h : evaluatorEval evalEntry order entries s = (none, entries', s'))
    {name : String} (hname : name ∈ entries.map (·.name)) : ∃ value, get entries' name = some value := by
  have hnames : entries'.map (·.name) = entries.map (·.name) := by
    have := evaluatorEval_names evalEntry order entries s
    rwa [h] at this
  rw [← hnames, List.mem_map] at hname
  obtain ⟨entry, hentry, rfl⟩ := hname
  rcases hfind : entries'.find? (·.name = entry.name) with _ | found
  · rw [List.find?_eq_none] at hfind
    exact absurd (by simp) (hfind entry hentry)
  · obtain ⟨i, hi, hget⟩ := List.getElem_of_mem (List.mem_of_find?_eq_some hfind)
    have hlen : entries'.length = entries.length := by simpa using congrArg List.length hnames
    have heval : Evaluated entries' i := evalLoop_evaluated h i (Or.inl (hall i (hlen ▸ hi)))
    have htrue : found.evaluated = true := heval found (by rw [List.getElem?_eq_getElem hi, hget])
    exact ⟨found.result, by simp [get, hfind, htrue]⟩

end Cxpr.Expression
