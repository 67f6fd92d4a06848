import Mathlib.Data.List.Perm.Basic

/-! Taking the labelled steps of a list in another order. Two neighbouring steps of which neither waits for the other
    may be swapped, up to an equivalence of states. Then every order in which no step stands before one it waits for
    leads to the same states. -/

namespace Reorder
variable {α σ : Type}

inductive Run (step : α → σ → σ → Prop) : List α → σ → σ → Prop where
  | nil (s : σ) : Run step [] s s
  | cons {a : α} {l : List α} {s t u : σ} : step a s t → Run step l t u → Run step (a :: l) s u

def Ordered (waits : α → α → Prop) (l : List α) : Prop := l.Pairwise fun a b => ¬ waits a b

instance (waits : α → α → Prop) [DecidableRel waits] (l : List α) : Decidable (Ordered waits l) :=
  inferInstanceAs (Decidable (l.Pairwise fun a b => ¬ waits a b))

structure Swappable (step : α → σ → σ → Prop) (same : σ → σ → Prop) (waits : α → α → Prop) : Prop where
  equivalence : Equivalence same
  simulate : ∀ {a s s' t}, same s s' → step a s t → ∃ t', step a s' t' ∧ same t t'
  swap : ∀ {a b s t u}, ¬ waits a b → ¬ waits b a → step a s t → step b t u →
    ∃ t' u', step b s t' ∧ step a t' u' ∧ same u u'

theorem exists_map_eq_of_perm {β : Type} {f : β → α} {l : List β} {l' : List α} (h : (l.map f).Perm l') :
    ∃ m, m.map f = l' ∧ l.Perm m := by
  have hlabels : List.Forall₂ (fun a b => a = f b) (l.map f) l :=
    List.forall₂_map_right_iff.mp (List.forall₂_refl (l.map f))
  obtain ⟨m, hm, hperm⟩ := List.perm_comp_forall₂ h.symm hlabels
  refine ⟨m, ?_, hperm.symm⟩
  have heq : List.Forall₂ Eq l' (m.map f) := List.forall₂_map_right_iff.mpr hm
  rw [List.forall₂_eq_eq_eq] at heq
  exact heq.symm

section
variable {step : α → σ → σ → Prop} {same : σ → σ → Prop} {waits : α → α → Prop} {a : α} {l l' : List α} {s s' t u : σ}

theorem run_append : Run step (l ++ l') s u ↔ ∃ t, Run step l s t ∧ Run step l' t u := by
  constructor
  · intro h
    induction l generalizing s with
    | nil => exact ⟨s, .nil s, h⟩
    | cons a l ih =>
      obtain _ | ⟨ha, hrest⟩ := h
      obtain ⟨t, hl, hl'⟩ := ih hrest
      exact ⟨t, .cons ha hl, hl'⟩
  · rintro ⟨t, hl, hl'⟩
    induction hl with
    | nil s => exact hl'
    | cons ha _ ih => exact .cons ha (ih hl')

theorem Swappable.run_simulate (hw : Swappable step same waits) (hs : same s s') (h : Run step l s t) :
    ∃ t', Run step l s' t' ∧ same t t' := by
  induction h generalizing s' with
  | nil s => exact ⟨s', .nil s', hs⟩
  | cons ha _ ih =>
    obtain ⟨t', ha', ht⟩ := hw.simulate hs ha
    obtain ⟨u', hl', hu⟩ := ih ht
    exact ⟨u', .cons ha' hl', hu⟩

theorem Swappable.run_front (hw : Swappable step same waits) (hfree : ∀ b ∈ l, ¬ waits a b ∧ ¬ waits b a)
    (h : Run step l s t) (ha : step a t u) : ∃ u', Run step (a :: l) s u' ∧ same u u' := by
  induction h with
  | nil s => exact ⟨u, .cons ha (.nil u), hw.equivalence.refl u⟩
  | @cons b l s r t hb hl ih =>
    obtain ⟨u₁, hrun, hu₁⟩ := ih (fun c hc => hfree c (List.mem_cons_of_mem b hc)) ha
    obtain _ | ⟨har, hrest⟩ := hrun
    obtain ⟨hab, hba⟩ := hfree b List.mem_cons_self
    obtain ⟨r', m', ha', hb', hm⟩ := hw.swap hba hab hb har
    obtain ⟨u₂, hrest', hu₂⟩ := hw.run_simulate hm hrest
    exact ⟨u₂, .cons ha' (.cons hb' hrest'), hw.equivalence.trans hu₁ hu₂⟩

theorem Swappable.run_perm (hw : Swappable step same waits) (hp : l.Perm l') (hl : Ordered waits l)
    (hl' : Ordered waits l') (h : Run step l s t) : ∃ t', Run step l' s t' ∧ same t t' := by
  induction l' generalizing l s t with
  | nil =>
    obtain rfl := hp.eq_nil
    exact ⟨t, h, hw.equivalence.refl t⟩
  | cons a l' ih =>
    obtain ⟨before, after, rfl, hnew⟩ := List.eq_append_cons_of_mem (hp.mem_iff.mpr List.mem_cons_self)
    have hrest : (before ++ after).Perm l' := (List.perm_middle.symm.trans hp).cons_inv
    -- what stood before `a` and stands after it now can wait for it in neither direction
    have hfree : ∀ b ∈ before, ¬ waits a b ∧ ¬ waits b a := by
      intro b hb
      refine ⟨?_, ?_⟩
      · exact (List.pairwise_cons.mp hl').1 b (hrest.mem_iff.mp (List.mem_append_left _ hb))
      · exact (List.pairwise_append.mp hl).2.2 b hb a List.mem_cons_self
    have hl₁ : Ordered waits (before ++ after) :=
      List.Pairwise.sublist (List.Sublist.append_left (List.sublist_cons_self a after) before) hl
    obtain ⟨m, hbefore, hafter⟩ := run_append.mp h
    obtain _ | ⟨ha, hafter⟩ := hafter
    obtain ⟨m', hfront, hm⟩ := hw.run_front hfree hbefore ha
    obtain _ | ⟨ha', hbefore'⟩ := hfront
    obtain ⟨t₁, hafter', ht₁⟩ := hw.run_simulate hm hafter
    obtain ⟨t₂, hrun, ht₂⟩ := ih hrest hl₁ (List.pairwise_cons.mp hl').2 (run_append.mpr ⟨m', hbefore', hafter'⟩)
    exact ⟨t₂, .cons ha' hrun, hw.equivalence.trans ht₁ ht₂⟩
end

end Reorder
