import Mathlib.Logic.Function.Basic
import Mathlib.Logic.Relation

/-! A work-list pass over straight-line code, for any instructions and any abstract state: starting from the first
    position, the state after an instruction is sent to every position control can go to, and a position is visited
    once. The pass accepts when all states sent to a position are the same. -/

namespace Worklist

structure Pass (I σ : Type) where
  /-- The state after the instruction; `none` rejects it. -/
  effect : I → σ → Option σ
  /-- The positions control can go to from the instruction at a position. -/
  flow : I → Nat → List Nat

variable {I σ : Type} [DecidableEq σ]

structure State (σ : Type) where
  seen : Nat → Option σ
  work : List Nat

def enqueue (count : Nat) (state : σ) (s : State σ) (target : Nat) : Option (State σ) :=
  if count ≤ target then none
  else
    match s.seen target with
    | none => some ⟨Function.update s.seen target (some state), target :: s.work⟩
    | some old => if old = state then some s else none

def enqueueAll (count : Nat) (state : σ) : List Nat → State σ → Option (State σ)
  | [], s => some s
  | t :: ts, s => (enqueue count state s t).bind (enqueueAll count state ts)

def visit (pass : Pass I σ) (program : List I) : Nat → State σ → Bool
  | _, ⟨_, []⟩ => true
  | 0, _ => false
  | fuel + 1, ⟨seen, ip :: work⟩ =>
    match program[ip]?, seen ip with
    | some instr, some state =>
      match pass.effect instr state with
      | none => false
      | some next =>
        match enqueueAll program.length next (pass.flow instr ip) ⟨seen, work⟩ with
        | none => false
        | some s => visit pass program fuel s
    | _, _ => false

/-- The whole pass. A position enters the work list once, so the length of the program is enough fuel. -/
def accepts (pass : Pass I σ) (program : List I) (init : σ) : Bool :=
  match program with
  | [] => false
  | _ :: _ => visit pass program program.length ⟨Function.update (fun _ => none) 0 (some init), [0]⟩

structure Consistent (pass : Pass I σ) (program : List I) (init : σ) (seen : Nat → Option σ) : Prop where
  start : seen 0 = some init
  next : ∀ ip state, seen ip = some state → ∃ instr after, program[ip]? = some instr ∧
    pass.effect instr state = some after ∧ ∀ t ∈ pass.flow instr ip, seen t = some after

section
variable {pass : Pass I σ} {program : List I} {init : σ}

def Extends (s s' : State σ) : Prop := ∀ t state, s.seen t = some state → s'.seen t = some state

omit [DecidableEq σ] in
theorem Extends.refl (s : State σ) : Extends s s := fun _ _ h => h

variable {s s' : State σ}

omit [DecidableEq σ] in
theorem Extends.trans {s'' : State σ} (h : Extends s s') (h' : Extends s' s'') : Extends s s'' :=
  fun t state ht => h' t state (h t state ht)

theorem enqueue_spec {count t : Nat} {state : σ} (h : enqueue count state s t = some s') :
    Extends s s' ∧ s'.seen t = some state ∧
    (∀ ip, s'.seen ip ≠ none → s.seen ip ≠ none ∨ ip ∈ s'.work) ∧ ∀ ip ∈ s.work, ip ∈ s'.work := by
  unfold enqueue at h
  split at h
  · cases h
  split at h
  · rename_i hnone
    cases h
    refine ⟨fun ip st hip => ?_, by simp, fun ip hip => ?_, fun ip hip => by simp [hip]⟩
    · have hne : ip ≠ t := by
        rintro rfl
        rw [hnone] at hip
        cases hip
      simpa [Function.update_of_ne hne] using hip
    · by_cases hne : ip = t
      · exact .inr (by simp [hne])
      · exact .inl (by simpa [Function.update_of_ne hne] using hip)
  · rename_i old hold
    split at h
    · rename_i heq
      cases h
      exact ⟨Extends.refl s, by rw [hold, heq], fun ip hip => .inl hip, fun ip hip => hip⟩
    · cases h

theorem enqueueAll_spec {count : Nat} {state : σ} {ts : List Nat}
    (h : enqueueAll count state ts s = some s') :
    Extends s s' ∧ (∀ t ∈ ts, s'.seen t = some state) ∧
    (∀ ip, s'.seen ip ≠ none → s.seen ip ≠ none ∨ ip ∈ s'.work) ∧ ∀ ip ∈ s.work, ip ∈ s'.work := by
  induction ts generalizing s with
  | nil =>
    cases h
    exact ⟨Extends.refl _, by simp, fun ip hip => .inl hip, fun ip hip => hip⟩
  | cons t ts ih =>
    obtain ⟨s₁, h₁, h₂⟩ := Option.bind_eq_some_iff.mp h
    obtain ⟨hext₁, ht, hnew₁, hwork₁⟩ := enqueue_spec h₁
    obtain ⟨hext₂, hts, hnew₂, hwork₂⟩ := ih h₂
    refine ⟨hext₁.trans hext₂, ?_, fun ip hip => ?_, fun ip hip => hwork₂ ip (hwork₁ ip hip)⟩
    · rintro t' (_ | ⟨_, ht'⟩)
      · exact hext₂ _ _ ht
      · exact hts t' ht'
    · rcases hnew₂ ip hip with h | h
      · rcases hnew₁ ip h with h | h
        · exact .inl h
        · exact .inr (hwork₂ ip h)
      · exact .inr h

def Settled (pass : Pass I σ) (program : List I) (s : State σ) : Prop :=
  ∀ ip state, s.seen ip = some state → ip ∈ s.work ∨ ∃ instr after, program[ip]? = some instr ∧
    pass.effect instr state = some after ∧ ∀ t ∈ pass.flow instr ip, s.seen t = some after

theorem visit_consistent : ∀ (fuel : Nat) (s : State σ), Settled pass program s → visit pass program fuel s = true →
    ∃ s', Extends s s' ∧ ∀ ip state, s'.seen ip = some state → ∃ instr after, program[ip]? = some instr ∧
      pass.effect instr state = some after ∧ ∀ t ∈ pass.flow instr ip, s'.seen t = some after := by
  intro fuel
  induction fuel with
  | zero =>
    rintro ⟨seen, _ | ⟨ip, work⟩⟩ hs hv
    · refine ⟨⟨seen, []⟩, Extends.refl _, fun ip state hip => ?_⟩
      exact (hs ip state hip).resolve_left (by simp)
    · simp [visit] at hv
  | succ fuel ih =>
    rintro ⟨seen, _ | ⟨ip, work⟩⟩ hs hv
    · refine ⟨⟨seen, []⟩, Extends.refl _, fun ip state hip => ?_⟩
      exact (hs ip state hip).resolve_left (by simp)
    · unfold visit at hv
      split at hv
      · rename_i instr state hinstr hstate
        split at hv
        · cases hv
        rename_i after heffect
        split at hv
        · cases hv
        rename_i s₁ hall
        obtain ⟨hext, hflow, hnew, hwork⟩ := enqueueAll_spec hall
        have hs₁ : Settled pass program s₁ := by
          intro ip' state' hip'
          rcases hnew ip' (by rw [hip']; simp) with hold | hin
          · obtain ⟨old, hold⟩ := Option.ne_none_iff_exists'.mp hold
            obtain rfl : old = state' := by
              have := hext ip' old hold
              rw [hip'] at this
              exact (Option.some.inj this).symm
            rcases hs ip' old hold with hmem | ⟨instr', after', hinstr', heffect', hflow'⟩
            · rcases List.mem_cons.mp hmem with rfl | hmem
              · obtain rfl : state = old := by
                  rw [show seen ip' = some old from hold] at hstate
                  exact (Option.some.inj hstate).symm
                exact .inr ⟨instr, after, hinstr, heffect, hflow⟩
              · exact .inl (hwork ip' hmem)
            · exact .inr ⟨instr', after', hinstr', heffect', fun t ht => hext t _ (hflow' t ht)⟩
          · exact .inl hin
        obtain ⟨s', hext', hdone⟩ := ih s₁ hs₁ hv
        exact ⟨s', fun t st ht => hext' t st (hext t st ht), hdone⟩
      · cases hv

theorem accepts_consistent (h : accepts pass program init = true) :
    ∃ seen, Consistent pass program init seen := by
  unfold accepts at h
  split at h
  · cases h
  rename_i instr rest
  have hs : Settled pass (instr :: rest) ⟨Function.update (fun _ => none) 0 (some init), [0]⟩ := by
    intro ip state hip
    by_cases hne : ip = 0
    · exact .inl (by simp [hne])
    · simp [Function.update_of_ne hne] at hip
  obtain ⟨s', hext, hdone⟩ := visit_consistent _ _ hs h
  exact ⟨s'.seen, hext 0 init (by simp), hdone⟩

omit [DecidableEq σ] in
theorem Consistent.run {M : Type} {Next : M → M → Prop} {seen : Nat → Option σ}
    (hseen : Consistent pass program init seen) (pos : M → Nat) (abs : M → σ)
    (hnext : ∀ m m' instr after, program[pos m]? = some instr → pass.effect instr (abs m) = some after → Next m m' →
      pos m' ∈ pass.flow instr (pos m) ∧ abs m' = after)
    {m m' : M} (hm : seen (pos m) = some (abs m)) (hrun : Relation.ReflTransGen Next m m') :
    seen (pos m') = some (abs m') ∧ (abs m' = abs m ∨ ∃ instr state, pass.effect instr state = some (abs m')) := by
  induction hrun with
  | refl => exact ⟨hm, .inl rfl⟩
  | tail _ hstep ih =>
    obtain ⟨instr, after, hinstr, heffect, hflow⟩ := hseen.next _ _ ih.1
    obtain ⟨hpos, rfl⟩ := hnext _ _ instr after hinstr heffect hstep
    exact ⟨hflow _ hpos, .inr ⟨instr, _, heffect⟩⟩

end
end Worklist
