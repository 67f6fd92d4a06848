import Cxpr.Lib.Computes

/-! Two stateful computations that succeed together: from related states both fail, each with an error of its own, or both
    succeed with the same result in related states. Over any pair of state types and any error. -/

namespace Stateful
variable {σ τ ε α β : Type}

inductive Both (R : σ → τ → Prop) (Q : α → Prop) : Except ε (α × σ) → Except ε (α × τ) → Prop
  | ok {a : α} {s : σ} {t : τ} (h : R s t) (hQ : Q a) : Both R Q (.ok (a, s)) (.ok (a, t))
  | error (e e' : ε) : Both R Q (.error e) (.error e')

def Parallel (R : σ → τ → Prop) (act : StateT σ (Except ε) α) (act' : StateT τ (Except ε) α)
    (Q : α → Prop := fun _ => True) : Prop :=
  ∀ s t, R s t → Both R Q (act s) (act' t)

variable {R : σ → τ → Prop} {Q : α → Prop} {act : StateT σ (Except ε) α} {act' : StateT τ (Except ε) α}

namespace Parallel

theorem pure {a : α} (hQ : Q a) : Parallel R (Pure.pure a : StateT σ (Except ε) α) (Pure.pure a) Q :=
  fun _ _ h => .ok h hQ

theorem throw (e e' : ε) : Parallel R (MonadExcept.throw e : StateT σ (Except ε) α) (MonadExcept.throw e') Q :=
  fun _ _ _ => .error e e'

theorem lift {x x' : Except ε α} (h : x.toOption = x'.toOption) (hQ : ∀ a, x = .ok a → Q a) :
    Parallel R (liftM x : StateT σ (Except ε) α) (liftM x') Q := by
  intro s t hst
  cases x with
  | error e =>
    cases x' with
    | error e' => exact .error e e'
    | ok a => cases h
  | ok a =>
    cases x' with
    | error e => cases h
    | ok b =>
      cases h
      exact .ok hst (hQ a rfl)

theorem bind {P : β → Prop} {k : α → StateT σ (Except ε) β} {k' : α → StateT τ (Except ε) β}
    (h : Parallel R act act' Q) (hk : ∀ a, Q a → Parallel R (k a) (k' a) P) : Parallel R (act >>= k) (act' >>= k') P := by
  intro s t hst
  have hact := h s t hst
  show Both R P (act s >>= fun p => k p.1 p.2) (act' t >>= fun p => k' p.1 p.2)
  generalize act s = x at hact ⊢
  generalize act' t = y at hact ⊢
  cases hact with
  | ok hR ha => exact hk _ ha _ _ hR
  | error e e' => exact .error e e'

theorem andThen {P : β → Prop} {k : α → StateT σ (Except ε) β} {k' : α → StateT τ (Except ε) β}
    (h : Parallel R act act') (hk : ∀ a, Parallel R (k a) (k' a) P) : Parallel R (act >>= k) (act' >>= k') P :=
  h.bind fun a _ => hk a

theorem read {k : σ → StateT σ (Except ε) α} {k' : τ → StateT τ (Except ε) α}
    (h : ∀ s t, R s t → Parallel R (k s) (k' t) Q) : Parallel R (get >>= k) (get >>= k') Q :=
  fun s t hst => h s t hst s t hst

theorem attempt (h : Parallel R act act') :
    Parallel R (tryCatch (some <$> act) fun _ => Pure.pure none) (tryCatch (some <$> act') fun _ => Pure.pure none) := by
  intro s t hst
  have hact := h s t hst
  show Both R _ (tryCatch ((some <$> act) s) fun _ => (Pure.pure none : StateT σ (Except ε) (Option α)) s)
    (tryCatch ((some <$> act') t) fun _ => (Pure.pure none : StateT τ (Except ε) (Option α)) t)
  have hmap : (some <$> act) s = (fun p => (some p.1, p.2)) <$> act s := rfl
  have hmap' : (some <$> act') t = (fun p => (some p.1, p.2)) <$> act' t := rfl
  rw [hmap, hmap']
  generalize act s = x at hact ⊢
  generalize act' t = y at hact ⊢
  cases hact with
  | ok hR ha => exact .ok hR trivial
  | error e e' => exact .ok hst trivial

end Parallel
end Stateful
