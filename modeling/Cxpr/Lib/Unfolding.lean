import Mathlib.Data.List.Perm.Subperm
import Mathlib.Logic.Relation

/-! Names that stand for terms, whose terms mention further names. Unfolding a term puts the unfolded term of its name in
    the place of every name that it mentions. -/

open Relation

structure Substitution (Name Term : Type) where
  refs : Term → List Name
  subst : (Name → Term) → Term → Term
  congr : ∀ {E F : Name → Term} {t : Term}, (∀ b ∈ refs t, E b = F b) → subst E t = subst F t

namespace Substitution
variable {Name Term : Type} (S : Substitution Name Term) (body : Name → Option Term)

/-- The term of `a` mentions `b`. -/
def Mentions (a b : Name) : Prop := ∃ t, body a = some t ∧ b ∈ S.refs t

inductive Unfolds : Name → Term → Prop
  | intro {a : Name} {t : Term} (E : Name → Term) :
    body a = some t → (∀ b ∈ S.refs t, Unfolds b (E b)) → Unfolds a (S.subst E t)

def Unfoldable (t : Term) : Prop := ∀ b ∈ S.refs t, ∃ u, S.Unfolds body b u

def Cyclic (t : Term) : Prop :=
  ∃ b ∈ S.refs t, ∃ c, ReflTransGen (S.Mentions body) b c ∧ TransGen (S.Mentions body) c c

open Classical in
noncomputable def unfolded (E : Name → Term) (a : Name) : Term :=
  if h : ∃ u, S.Unfolds body a u then h.choose else E a

variable {S body}

variable {a : Name} {u : Term}

theorem Unfolds.unique {v : Term} (hu : S.Unfolds body a u) (hv : S.Unfolds body a v) : u = v := by
  induction hu generalizing v with
  | intro E hbody _ ih =>
    cases hv with
    | intro F hbody' hrefs =>
      rw [hbody] at hbody'
      cases hbody'
      exact S.congr fun b hb => ih b hb (hrefs b hb)

theorem unfolded_of_unfolds {E : Name → Term} (h : S.Unfolds body a u) :
    S.unfolded body E a = u := by
  have hex : ∃ u, S.Unfolds body a u := ⟨u, h⟩
  rw [unfolded, dif_pos hex]
  exact hex.choose_spec.unique h

theorem unfolds_of_body {E : Name → Term} {t : Term} (hbody : body a = some t) (h : S.Unfoldable body t) :
    S.Unfolds body a (S.subst (S.unfolded body E) t) :=
  .intro _ hbody fun b hb => by
    obtain ⟨u, hu⟩ := h b hb
    rwa [unfolded_of_unfolds hu]

theorem Unfolds.reaches {b : Name} (h : S.Unfolds body a u) (hreach : ReflTransGen (S.Mentions body) a b) :
    ∃ v, S.Unfolds body b v := by
  induction hreach with
  | refl => exact ⟨u, h⟩
  | tail _ hmentions ih =>
    obtain ⟨v, hv⟩ := ih
    obtain ⟨t, ht, hmem⟩ := hmentions
    cases hv with
    | intro E hbody hrefs =>
      rw [hbody] at ht
      cases ht
      exact ⟨_, hrefs _ hmem⟩

theorem Unfolds.acyclic (h : S.Unfolds body a u) : ¬TransGen (S.Mentions body) a a := by
  induction h with
  | intro E hbody _ ih =>
    intro hcycle
    obtain ⟨b, ⟨t, ht, hmem⟩, hback⟩ := TransGen.head'_iff.mp hcycle
    rw [hbody] at ht
    cases ht
    exact ih b hmem (TransGen.tail' hback ⟨_, hbody, hmem⟩)

theorem Unfoldable.not_cyclic {t : Term} (h : S.Unfoldable body t) : ¬S.Cyclic body t := by
  rintro ⟨b, hb, c, hreach, hcycle⟩
  obtain ⟨u, hu⟩ := h b hb
  obtain ⟨v, hv⟩ := hu.reaches hreach
  exact hv.acyclic hcycle

theorem exists_unfolds {names : List Name} (hnames : ∀ c t, body c = some t → c ∈ names) {fuel : Nat} {stack : List Name}
    {b : Name} (hnodup : stack.Nodup) (hsubset : stack ⊆ names) (habove : ∀ s ∈ stack, TransGen (S.Mentions body) s b)
    (hfuel : names.length < fuel + stack.length)
    (hreach : ∀ c, ReflTransGen (S.Mentions body) b c → (∃ t, body c = some t) ∧ ¬TransGen (S.Mentions body) c c) :
    ∃ u, S.Unfolds body b u := by
  induction fuel generalizing stack b with
  | zero =>
    have hle := (List.subperm_of_subset hnodup hsubset).length_le
    omega
  | succ fuel ih =>
    obtain ⟨⟨t, hbody⟩, hacyclic⟩ := hreach b .refl
    have hfresh : b ∉ stack := fun hb => hacyclic (habove b hb)
    have hunfold : S.Unfoldable body t := fun d hd => by
      have hmentions : S.Mentions body b d := ⟨t, hbody, hd⟩
      refine ih (List.nodup_cons.mpr ⟨hfresh, hnodup⟩) (List.cons_subset.mpr ⟨hnames b t hbody, hsubset⟩) (fun s hs => ?_)
        (by simp only [List.length_cons]; omega) fun c hc => hreach c (.head hmentions hc)
      rcases List.mem_cons.mp hs with rfl | hs
      · exact .single hmentions
      · exact (habove s hs).tail hmentions
    exact ⟨_, unfolds_of_body (E := fun _ => t) hbody hunfold⟩

section
variable {ε α β γ : Type} {cycle : ε} {stack : List Name}

/-- What unfolding below the names of a stack comes to: a value when no name is reached that is on the stack or mentions
    itself, and the error otherwise. -/
inductive Outcome (S : Substitution Name Term) (body : Name → Option Term) (cycle : ε) (stack refs : List Name)
    (value : α) : Except ε α → Prop
  | value :
    (∀ b ∈ refs, ∃ u, S.Unfolds body b u) → (∀ b ∈ refs, ∀ c ∈ stack, ¬ReflTransGen (S.Mentions body) b c) →
    Outcome S body cycle stack refs value (.ok value)
  | cycle {b c : Name} :
    b ∈ refs → ReflTransGen (S.Mentions body) b c → c ∈ stack ∨ TransGen (S.Mentions body) c c →
    Outcome S body cycle stack refs value (.error cycle)

namespace Outcome
variable {refs refs' : List Name} {v : α} {w : β} {r : Except ε α} {r' : Except ε β}

theorem pure (v : α) : Outcome S body cycle stack [] v (.ok v) := 
  .value (fun _ h => absurd h List.not_mem_nil) (fun _ h => absurd h List.not_mem_nil)

theorem map (f : α → β) (h : Outcome S body cycle stack refs v r) : Outcome S body cycle stack refs (f v) (r.map f) := by
  cases h with
  | value hunfold hstack => exact .value hunfold hstack
  | cycle hmem hreach hcycle => exact .cycle hmem hreach hcycle

theorem seq (f : α → β → γ) (h : Outcome S body cycle stack refs v r) (h' : Outcome S body cycle stack refs' w r') :
    Outcome S body cycle stack (refs ++ refs') (f v w) (do let a ← r; let b ← r'; return f a b) := by
  cases h with
  | cycle hmem hreach hcycle => exact .cycle (List.mem_append_left _ hmem) hreach hcycle
  | value hunfold hstack =>
    cases h' with
    | cycle hmem hreach hcycle => exact .cycle (List.mem_append_right _ hmem) hreach hcycle
    | value hunfold' hstack' =>
      refine .value (fun b hb => ?_) (fun b hb => ?_)
      · exact (List.mem_append.mp hb).elim (hunfold b) (hunfold' b)
      · exact (List.mem_append.mp hb).elim (hstack b) (hstack' b)

theorem name {E : Name → Term} {a : Name} {t : Term} {r : Except ε Term} (hbody : body a = some t) (hfresh : a ∉ stack)
    (h : Outcome S body cycle (a :: stack) (S.refs t) (S.subst (S.unfolded body E) t) r) :
    Outcome S body cycle stack [a] (S.unfolded body E a) r := by
  have hmentions {b : Name} (hb : b ∈ S.refs t) : S.Mentions body a b := ⟨t, hbody, hb⟩
  cases h with
  | value hunfold hstack =>
    have ha := unfolds_of_body (E := E) hbody hunfold
    rw [← unfolded_of_unfolds (E := E) ha]
    refine .value (fun b hb => ?_) (fun b hb c hc hreach => ?_)
    · rw [List.mem_singleton.mp hb]
      exact ⟨_, ha⟩
    · rw [List.mem_singleton.mp hb] at hreach
      rcases hreach.cases_head with rfl | ⟨d, ⟨t', ht', hd⟩, hrest⟩
      · exact hfresh hc
      · rw [hbody] at ht'
        cases ht'
        exact hstack d hd c (List.mem_cons_of_mem a hc) hrest
  | cycle hmem hreach hcycle =>
    rename_i b c
    have hback : ReflTransGen (S.Mentions body) a c := .head (hmentions hmem) hreach
    rcases hcycle with hc | hc
    · rcases List.mem_cons.mp hc with rfl | hc
      · exact .cycle (List.mem_singleton_self _) .refl (.inr (TransGen.head' (hmentions hmem) hreach))
      · exact .cycle (List.mem_singleton_self _) hback (.inl hc)
    · exact .cycle (List.mem_singleton_self _) hback (.inr hc)

theorem of_empty {t : Term} (h : Outcome S body cycle [] (S.refs t) v r) :
    (r = .error cycle ↔ S.Cyclic body t) ∧ (¬S.Cyclic body t → S.Unfoldable body t ∧ r = .ok v) := by
  cases h with
  | value hunfold _ =>
    exact ⟨⟨fun h => absurd h (by simp), fun h => absurd h (Unfoldable.not_cyclic hunfold)⟩, fun _ => ⟨hunfold, rfl⟩⟩
  | cycle hmem hreach hcycle =>
    have hcyclic : S.Cyclic body t := ⟨_, hmem, _, hreach, hcycle.resolve_left List.not_mem_nil⟩
    exact ⟨⟨fun _ => hcyclic, fun _ => rfl⟩, fun h => absurd hcyclic h⟩

end Outcome
end
end Substitution
