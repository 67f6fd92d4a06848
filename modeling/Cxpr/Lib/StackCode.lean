import Mathlib.Algebra.Ring.Int.Defs
import Mathlib.Algebra.BigOperators.Group.List.Basic

/-! Straight-line stack code with forward jumps, over any instruction type. Code is checked against the depth a linear
    scan of it gives to every position; checked code has one depth per position on all paths, no path that pops below
    the stack, and jumps that stay inside and go forward. -/

namespace StackCode

/-- What an instruction does to the operand stack and to control. `next` is the depth at the following position less
    the depth at its own, also for an instruction that control never passes from to the following position. -/
class Isa (I : Type) where
  pops : I → Nat
  pushes : I → Nat
  target? : I → Option Nat
  falls : I → Bool
  next : I → Int
  next_of_falls : ∀ ins, falls ins = true → next ins = pushes ins - pops ins

open Isa

variable {I : Type} [Isa I]

def depth (code : List I) : Int := (code.map next).sum

@[simp] theorem depth_nil : depth ([] : List I) = 0 := rfl

@[simp] theorem depth_cons (ins : I) (code : List I) : depth (ins :: code) = next ins + depth code := by
  simp [depth]

@[simp] theorem depth_append (c₁ c₂ : List I) : depth (c₁ ++ c₂) = depth c₁ + depth c₂ := by
  simp [depth]

/-- One instruction of code placed at address `b` with `s` values on the stack: its operands are there, control goes
    on from it, and if it jumps, the target lies ahead, not beyond the end, at the depth the jump leaves. -/
def CheckAt (b : Nat) (s : Int) (code : List I) (i : Nat) (ins : I) : Prop :=
  ((pops ins : Int) ≤ s + depth (code.take i) ∧ (falls ins = true ∨ (target? ins).isSome = true)) ∧
  ∀ t, target? ins = some t →
    b + i < t ∧ t ≤ b + code.length ∧ depth (code.take (t - b)) = depth (code.take i) + pushes ins - pops ins

def Checked (b : Nat) (s : Int) (code : List I) : Prop := ∀ i ins, code[i]? = some ins → CheckAt b s code i ins

def Piece (b : Nat) (s : Int) (pre part post : List I) : Prop :=
  ∀ i ins, part[i]? = some ins → CheckAt b s (pre ++ part ++ post) (pre.length + i) ins

section
variable {b : Nat} {s s' : Int} {pre part post c c₁ c₂ : List I} {ins : I}

theorem checked_iff_piece : Checked b s c ↔ Piece b s [] c [] := by
  simp [Checked, Piece]

theorem checked_nil : Checked b s ([] : List I) := by
  intro i ins h
  simp at h

theorem Piece.append (h₁ : Piece b s pre c₁ (c₂ ++ post)) (h₂ : Piece b s (pre ++ c₁) c₂ post) :
    Piece b s pre (c₁ ++ c₂) post := by
  intro i ins h
  rw [List.getElem?_append] at h
  split at h
  · have := h₁ i ins h
    simpa [List.append_assoc] using this
  · rename_i hi
    have := h₂ (i - c₁.length) ins h
    rw [List.length_append, show pre.length + c₁.length + (i - c₁.length) = pre.length + i by omega] at this
    simpa [List.append_assoc] using this

theorem Piece.of_checked {b' : Nat} (h : Checked b' s' c) (hb : b' = b + pre.length) (hs : s' ≤ s + depth pre) :
    Piece b s pre c post := by
  subst hb
  intro i ins hi
  have hlt : i < c.length := (List.getElem?_eq_some_iff.mp hi).1
  obtain ⟨⟨hpops, hgoes⟩, htarget⟩ := h i ins hi
  have htake : (pre ++ c ++ post).take (pre.length + i) = pre ++ c.take i := by
    rw [List.append_assoc, List.take_length_add_append, List.take_append_of_le_length (Nat.le_of_lt hlt)]
  refine ⟨⟨?_, hgoes⟩, fun t ht => ?_⟩
  · rw [htake, depth_append]
    omega
  · obtain ⟨hfwd, hend, hdepth⟩ := htarget t ht
    have htake' : (pre ++ c ++ post).take (t - b) = pre ++ c.take (t - (b + pre.length)) := by
      rw [show t - b = pre.length + (t - (b + pre.length)) by omega, List.append_assoc,
        List.take_length_add_append, List.take_append_of_le_length (by omega)]
    refine ⟨by omega, by simp only [List.length_append]; omega, ?_⟩
    rw [htake, htake', depth_append, depth_append, hdepth]
    omega

theorem Piece.instr (hpops : (pops ins : Int) ≤ s + depth pre) (hno : target? ins = none) (hf : falls ins = true) :
    Piece b s pre [ins] post := by
  intro i ins' hi
  obtain ⟨rfl, rfl⟩ : i = 0 ∧ ins' = ins := by
    cases i with
    | zero => exact ⟨rfl, by simpa using hi.symm⟩
    | succ i => simp at hi
  refine ⟨⟨?_, .inl hf⟩, fun t ht => by rw [hno] at ht; cases ht⟩
  simpa using hpops

theorem Piece.jump {t : Nat} (mid rest : List I) (hpost : post = mid ++ rest) (ht : target? ins = some t)
    (haddr : t = b + pre.length + 1 + mid.length) (hpops : (pops ins : Int) ≤ s + depth pre)
    (hdepth : next ins + depth mid = pushes ins - pops ins) : Piece b s pre [ins] post := by
  subst hpost haddr
  intro i ins' hi
  obtain ⟨rfl, rfl⟩ : i = 0 ∧ ins' = ins := by
    cases i with
    | zero => exact ⟨rfl, by simpa using hi.symm⟩
    | succ i => simp at hi
  have htake : (pre ++ [ins'] ++ (mid ++ rest)).take (pre.length + 0) = pre := by simp
  refine ⟨⟨by rw [htake]; exact hpops, .inr (by rw [ht]; rfl)⟩, fun t ht' => ?_⟩
  rw [ht, Option.some.injEq] at ht'
  subst ht'
  have htake' : (pre ++ [ins'] ++ (mid ++ rest)).take (b + pre.length + 1 + mid.length - b) =
      pre ++ [ins'] ++ mid := by
    rw [← List.append_assoc, List.take_append_of_le_length (by simp; omega), List.take_of_length_le (by simp; omega)]
  refine ⟨by omega, by simp only [List.length_append, List.length_singleton]; omega, ?_⟩
  rw [htake, htake', depth_append, depth_append, depth_cons, depth_nil]
  omega

theorem Checked.append (h₁ : Checked b s c₁) (h₂ : Checked (b + c₁.length) (s + depth c₁) c₂) :
    Checked b s (c₁ ++ c₂) :=
  checked_iff_piece.mpr <| .append (.of_checked h₁ (by simp) (by simp)) (.of_checked h₂ (by simp) (by simp))

theorem Checked.concat (h : Checked b s c) (hpops : (pops ins : Int) ≤ s + depth c) (hno : target? ins = none)
    (hf : falls ins = true) : Checked b s (c ++ [ins]) :=
  checked_iff_piece.mpr <| .append (.of_checked h (by simp) (by simp)) (.instr (by simpa using hpops) hno hf)

theorem Checked.mono (h : Checked b s c) (hs : s ≤ s') : Checked b s' c := fun i ins hi =>
  ⟨⟨by have := (h i ins hi).1.1; omega, (h i ins hi).1.2⟩, (h i ins hi).2⟩

end

/-- A path through the code reaches position `i` with `d` values on the stack. -/
inductive Reaches (code : List I) : Nat → Int → Prop
  | start : Reaches code 0 0
  | fall {i d ins} : Reaches code i d → code[i]? = some ins → falls ins = true →
      Reaches code (i + 1) (d - pops ins + pushes ins)
  | jump {i d ins t} : Reaches code i d → code[i]? = some ins → target? ins = some t →
      Reaches code t (d - pops ins + pushes ins)

section
variable {code : List I} {i : Nat} {d d' : Int} {ins last : I}

theorem depth_take_succ (h : code[i]? = some ins) : depth (code.take (i + 1)) = depth (code.take i) + next ins := by
  rw [List.take_add_one, h, depth_append]
  simp

theorem Checked.reaches (h : Checked 0 0 code) (hf : falls last = false) (ht : target? last = none)
    (hr : Reaches (code ++ [last]) i d) : i ≤ code.length ∧ d = depth (code.take i) := by
  induction hr with
  | start => simp
  | @fall i d ins _ hi hfalls ih =>
    obtain ⟨hle, hd⟩ := ih
    rcases Nat.lt_or_eq_of_le hle with hlt | rfl
    · rw [List.getElem?_append_left hlt] at hi
      refine ⟨hlt, ?_⟩
      rw [depth_take_succ hi, next_of_falls ins hfalls, hd]
      omega
    · simp only [List.getElem?_concat_length, Option.some.injEq] at hi
      rw [← hi, hf] at hfalls
      cases hfalls
  | @jump i d ins t _ hi htarget ih =>
    obtain ⟨hle, hd⟩ := ih
    rcases Nat.lt_or_eq_of_le hle with hlt | rfl
    · rw [List.getElem?_append_left hlt] at hi
      obtain ⟨-, hend, hdepth⟩ := (h i ins hi).2 t htarget
      rw [Nat.zero_add] at hend
      rw [Nat.sub_zero] at hdepth
      exact ⟨hend, by rw [hdepth, hd]; omega⟩
    · simp only [List.getElem?_concat_length, Option.some.injEq] at hi
      rw [← hi, ht] at htarget
      cases htarget

theorem Checked.reaches_end (h : Checked 0 0 code) (hf : falls last = false) (ht : target? last = none) :
    Reaches (code ++ [last]) code.length (depth code) := by
  suffices ∀ n i d, Reaches (code ++ [last]) i d → code.length - i = n →
      ∃ d', Reaches (code ++ [last]) code.length d' by
    obtain ⟨d', hd'⟩ := this _ 0 0 .start rfl
    obtain ⟨-, heq⟩ := h.reaches hf ht hd'
    rwa [heq, List.take_length] at hd'
  intro n
  induction n using Nat.strongRecOn with
  | ind n ih =>
    intro i d hr hn
    rcases Nat.lt_or_eq_of_le (h.reaches hf ht hr).1 with hlt | rfl
    · obtain ⟨ins, hins⟩ : ∃ ins, code[i]? = some ins := ⟨_, List.getElem?_eq_getElem hlt⟩
      have hins' : (code ++ [last])[i]? = some ins := by rw [List.getElem?_append_left hlt, hins]
      obtain ⟨⟨-, hgoes⟩, htarget⟩ := h i ins hins
      rcases hgoes with hfalls | hjump
      · exact ih _ (by omega) _ _ (.fall hr hins' hfalls) rfl
      · obtain ⟨t, hjump⟩ := Option.isSome_iff_exists.mp hjump
        have := htarget t hjump
        exact ih _ (by omega) _ _ (.jump hr hins' hjump) rfl
    · exact ⟨d, hr⟩

end
end StackCode
