import Mathlib.Data.Set.Defs

/-! Stateful computations whose result does not depend on the state, as long as the state keeps an invariant: a cache
    may grow on the way, but it never decides what is computed. Over any state and any error. -/

namespace Stateful
variable {σ ε α β : Type}

/-- On every state with the invariant the computation has this result, and a success keeps the invariant. -/
def Computes (I : Set σ) (act : StateT σ (Except ε) α) (r : Except ε α) : Prop :=
  ∀ s ∈ I, match r with
    | .ok a => ∃ s' ∈ I, act s = .ok (a, s')
    | .error e => act s = .error e

variable {I : Set σ} {act : StateT σ (Except ε) α} {r : Except ε α}

theorem Computes.pure (a : α) : Computes I (Pure.pure a : StateT σ (Except ε) α) (.ok a) :=
  fun s hs => ⟨s, hs, rfl⟩

theorem Computes.throw (e : ε) : Computes I (MonadExcept.throw e : StateT σ (Except ε) α) (.error e) := fun _ _ => rfl

theorem Computes.lift (x : Except ε α) : Computes I (liftM x : StateT σ (Except ε) α) x := by
  intro s hs
  cases x with
  | ok a => exact ⟨s, hs, rfl⟩
  | error e => rfl

variable {k : α → StateT σ (Except ε) β}

theorem lift_ok_bind (a : α) :
    (liftM (Except.ok a : Except ε α) : StateT σ (Except ε) α) >>= k = k a := rfl

theorem bind_apply_ok {s s' : σ} {a : α} (h : act s = .ok (a, s')) :
    (act >>= k) s = k a s' := by
  show (act s >>= fun p => k p.1 p.2) = k a s'
  rw [h]
  rfl

theorem bind_apply_error {s : σ} {e : ε} (h : act s = .error e) :
    (act >>= k) s = .error e := by
  show (act s >>= fun p => k p.1 p.2) = .error e
  rw [h]
  rfl

theorem bind_apply_eq_ok {s : σ} {r : β × σ} :
    (act >>= k) s = .ok r ↔ ∃ a s', act s = .ok (a, s') ∧ k a s' = .ok r := by
  cases h : act s with
  | error e => simp [bind_apply_error h]
  | ok p =>
    obtain ⟨a, s'⟩ := p
    rw [bind_apply_ok h]
    constructor
    · exact fun hk => ⟨a, s', rfl, hk⟩
    · rintro ⟨a', s'', heq, hk⟩
      cases heq
      exact hk

theorem lift_apply_eq_ok {x : Except ε α} {s s' : σ} {a : α} :
    (liftM x : StateT σ (Except ε) α) s = .ok (a, s') ↔ x = .ok a ∧ s' = s := by
  cases x with
  | error e =>
    constructor
    · intro h
      cases h
    · rintro ⟨h, -⟩
      cases h
  | ok b =>
    constructor
    · intro h
      cases h
      exact ⟨rfl, rfl⟩
    · rintro ⟨h, rfl⟩
      cases h
      rfl

theorem Computes.bind {f : α → Except ε β} (h : Computes I act r)
    (hk : ∀ a, r = .ok a → Computes I (k a) (f a)) : Computes I (act >>= k) (r >>= f) := by
  intro s hs
  have hact := h s hs
  cases r with
  | error e => exact bind_apply_error hact
  | ok a =>
    obtain ⟨s', hs', hact⟩ := hact
    rw [bind_apply_ok hact]
    exact hk a rfl s' hs'

theorem Computes.read {k : σ → StateT σ (Except ε) α} (h : ∀ s ∈ I, Computes I (k s) r) : Computes I (get >>= k) r :=
  fun s hs => h s hs s hs

end Stateful
