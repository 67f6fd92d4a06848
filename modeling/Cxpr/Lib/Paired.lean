import Cxpr.Lib.Computes

/-! Two stateful computations side by side: from related states they fail alike, or succeed with the same result in
    related states. Over any pair of state types and any error. -/

namespace Stateful
variable {σ τ ε α β : Type}

inductive Together (R : σ → τ → Prop) : Except ε (α × σ) → Except ε (α × τ) → Prop
  | ok {a : α} {s : σ} {t : τ} (h : R s t) : Together R (.ok (a, s)) (.ok (a, t))
  | error (e : ε) : Together R (.error e) (.error e)

def Paired (R : σ → τ → Prop) (act : StateT σ (Except ε) α) (act' : StateT τ (Except ε) α) : Prop :=
  ∀ s t, R s t → Together R (act s) (act' t)

variable {R : σ → τ → Prop} {act : StateT σ (Except ε) α} {act' : StateT τ (Except ε) α}

theorem Together.results {x : Except ε (α × σ)} {y : Except ε (α × τ)} (h : Together R x y) :
    x.map Prod.fst = y.map Prod.fst := by
  cases h <;> rfl

namespace Paired

theorem pure (a : α) : Paired R (Pure.pure a : StateT σ (Except ε) α) (Pure.pure a : StateT τ (Except ε) α) :=
  fun _ _ h => .ok h

theorem throw (e : ε) :
    Paired R (MonadExcept.throw e : StateT σ (Except ε) α) (MonadExcept.throw e : StateT τ (Except ε) α) :=
  fun _ _ _ => .error e

theorem lift (x : Except ε α) : Paired R (liftM x : StateT σ (Except ε) α) (liftM x : StateT τ (Except ε) α) := by
  intro s t h
  cases x with
  | ok a => exact .ok h
  | error e => exact .error e

theorem bindOn {Q : α → Prop} {k : α → StateT σ (Except ε) β} {k' : α → StateT τ (Except ε) β} (h : Paired R act act')
    (hQ : ∀ s a s', act s = .ok (a, s') → Q a) (hk : ∀ a, Q a → Paired R (k a) (k' a)) :
    Paired R (act >>= k) (act' >>= k') := by
  intro s t hst
  have hact := h s t hst
  rcases hs : act s with e | ⟨a, s'⟩
  · rw [hs] at hact
    rcases ht : act' t with e' | q
    · rw [ht] at hact
      obtain ⟨⟩ := hact
      rw [bind_apply_error hs, bind_apply_error ht]
      exact .error e
    · rw [ht] at hact
      cases hact
  · rw [hs] at hact
    rcases ht : act' t with e' | ⟨b, t'⟩
    · rw [ht] at hact
      cases hact
    · rw [ht] at hact
      obtain ⟨hst'⟩ := hact
      rw [bind_apply_ok hs, bind_apply_ok ht]
      exact hk a (hQ s a s' hs) s' t' hst'

theorem bind {k : α → StateT σ (Except ε) β} {k' : α → StateT τ (Except ε) β} (h : Paired R act act')
    (hk : ∀ a, Paired R (k a) (k' a)) : Paired R (act >>= k) (act' >>= k') :=
  h.bindOn (Q := fun _ => True) (fun _ _ _ _ => trivial) fun a _ => hk a

theorem tryCatch {k : ε → StateT σ (Except ε) α} {k' : ε → StateT τ (Except ε) α} (h : Paired R act act')
    (hk : ∀ e, Paired R (k e) (k' e)) : Paired R (MonadExcept.tryCatch act k) (MonadExcept.tryCatch act' k') := by
  intro s t hst
  have hact := h s t hst
  show Together R (MonadExcept.tryCatch (act s) fun e => k e s) (MonadExcept.tryCatch (act' t) fun e => k' e t)
  rcases hs : act s with e | ⟨a, s'⟩
  · rw [hs] at hact
    rcases ht : act' t with e' | q
    · rw [ht] at hact
      obtain ⟨⟩ := hact
      exact hk e s t hst
    · rw [ht] at hact
      cases hact
  · rw [hs] at hact
    rcases ht : act' t with e' | ⟨b, t'⟩
    · rw [ht] at hact
      cases hact
    · rw [ht] at hact
      exact hact

theorem read {k : σ → StateT σ (Except ε) α} {k' : τ → StateT τ (Except ε) α}
    (h : ∀ s t, R s t → Paired R (k s) (k' t)) : Paired R (get >>= k) (get >>= k') :=
  fun s t hst => h s t hst s t hst

end Paired
end Stateful
