import Mathlib.Data.Set.Defs

/-! Partial correctness of stateful computations: what a success says about its result, and that it keeps an invariant
    of the state. Over any state and any error. -/

namespace Stateful
variable {σ ε α β : Type}

def Yields (I : Set σ) (act : StateT σ (Except ε) α) (P : α → Prop) : Prop :=
  ∀ s ∈ I, ∀ a s', act s = .ok (a, s') → s' ∈ I ∧ P a

namespace Yields
variable {I : Set σ} {act : StateT σ (Except ε) α} {P : α → Prop} {Q : β → Prop}

theorem mono {P' : α → Prop} (h : Yields I act P) (hP : ∀ a, P a → P' a) : Yields I act P' :=
  fun s hs a s' hact => (h s hs a s' hact).imp_right (hP a)

theorem pure {a : α} (h : P a) : Yields I (Pure.pure a : StateT σ (Except ε) α) P := by
  rintro s hs b s' hact
  cases hact
  exact ⟨hs, h⟩

theorem throw (e : ε) : Yields I (MonadExcept.throw e : StateT σ (Except ε) α) P := by
  rintro s hs b s' hact
  cases hact

theorem lift {x : Except ε α} (h : ∀ a, x = .ok a → P a) : Yields I (liftM x : StateT σ (Except ε) α) P := by
  intro s hs a s' hact
  cases x with
  | error e => cases hact
  | ok b =>
    cases hact
    exact ⟨hs, h _ rfl⟩

theorem bind {k : α → StateT σ (Except ε) β} (h : Yields I act P) (hk : ∀ a, P a → Yields I (k a) Q) :
    Yields I (act >>= k) Q := by
  intro s hs b s' hact
  cases hrun : act s with
  | error e =>
    have hact : (act s >>= fun p => k p.1 p.2) = .ok (b, s') := hact
    rw [hrun] at hact
    cases hact
  | ok p =>
    have hact : (act s >>= fun p => k p.1 p.2) = .ok (b, s') := hact
    rw [hrun] at hact
    obtain ⟨hp, hP⟩ := h s hs p.1 p.2 hrun
    exact hk p.1 hP p.2 hp b s' hact

theorem andThen {k : α → StateT σ (Except ε) β} (h : Yields I act fun _ => True) (hk : ∀ a, Yields I (k a) Q) :
    Yields I (act >>= k) Q :=
  h.bind fun a _ => hk a

theorem ite {c : Prop} [Decidable c] {other : StateT σ (Except ε) α} (h : Yields I act P)
    (hother : Yields I other P) : Yields I (if c then act else other) P := by
  split
  · exact h
  · exact hother

theorem iteAndThen {c : Prop} [Decidable c] {other : StateT σ (Except ε) α} {k : α → StateT σ (Except ε) β}
    (h : Yields I act fun _ => True) (hother : Yields I other fun _ => True) (hk : ∀ a, Yields I (k a) Q) :
    Yields I (if c then act >>= k else other >>= k) Q := by
  split
  · exact h.andThen hk
  · exact hother.andThen hk

theorem read {k : σ → StateT σ (Except ε) α} (h : ∀ s ∈ I, Yields I (k s) P) :
    Yields I (MonadState.get >>= k) P :=
  fun s hs => h s hs s hs

theorem modify {f : σ → σ} (h : ∀ s ∈ I, f s ∈ I) :
    Yields I (MonadStateOf.modifyGet fun s => (PUnit.unit, f s) : StateT σ (Except ε) PUnit) fun _ => True := by
  rintro s hs a s' hact
  cases hact
  exact ⟨h s hs, trivial⟩

theorem tryCatch {handler : ε → StateT σ (Except ε) α} (h : Yields I act P) (hh : ∀ e, Yields I (handler e) P) :
    Yields I (MonadExcept.tryCatch act handler) P := by
  intro s hs a s' hact
  have hact : Except.tryCatch (act s) (fun e => handler e s) = .ok (a, s') := hact
  cases hrun : act s with
  | ok r =>
    rw [hrun] at hact
    cases hact
    exact h s hs a s' hrun
  | error e =>
    rw [hrun] at hact
    exact hh e s hs a s' hact

theorem map {f : α → β} (h : Yields I act P) (hf : ∀ a, P a → Q (f a)) : Yields I (f <$> act) Q := by
  intro s hs b s' hact
  cases hrun : act s with
  | error e =>
    have hact : (act s >>= fun p => Except.ok (f p.1, p.2)) = .ok (b, s') := hact
    rw [hrun] at hact
    cases hact
  | ok p =>
    have hact : (act s >>= fun p => Except.ok (f p.1, p.2)) = .ok (b, s') := hact
    rw [hrun] at hact
    cases hact
    obtain ⟨hp, hP⟩ := h s hs p.1 p.2 hrun
    exact ⟨hp, hf _ hP⟩

end Yields
end Stateful
