import Mathlib.Data.List.DropRight

/-! A cursor in a text: the characters that are left, with the place of the first of them. A scanner is made of steps over
    one character; what it passes on the way is a text, and the place behind the text follows from the text alone. -/

structure Cursor where
  current : List Char
  line : Nat
  column : Nat
  position : Nat

namespace Cursor

def start (source : List Char) : Cursor := ⟨source, 1, 1, 0⟩

def advance (c : Cursor) : Cursor :=
  match c.current with
  | [] => c
  | x :: rest =>
    if x == '\n' then ⟨rest, c.line + 1, 1, c.position + 1⟩ else ⟨rest, c.line, c.column + 1, c.position + 1⟩

def advanceBy : Nat → Cursor → Cursor
  | 0, c => c
  | n + 1, c => advanceBy n c.advance

def advanceWhile (p : Char → Bool) (c : Cursor) : Cursor := c.advanceBy (c.current.takeWhile p).length

def sees (p : Char → Bool) (c : Cursor) : Bool := c.current.head?.any p

def between (c c' : Cursor) : List Char := c.current.take (c.current.length - c'.current.length)

structure At (read : List Char) (c : Cursor) : Prop where
  position : c.position = read.length
  line : c.line = 1 + read.count '\n'
  column : c.column = 1 + (read.rtakeWhile (· != '\n')).length

structure Passes (text : List Char) (c c' : Cursor) : Prop where
  current : c.current = text ++ c'.current
  position : c'.position = c.position + text.length
  place : ∀ read, c.At read → c'.At (read ++ text)

variable {c c' c'' : Cursor} {text text' : List Char} {x : Char} {rest : List Char} {p : Char → Bool}

theorem at_start (source : List Char) : (start source).At [] := ⟨rfl, rfl, rfl⟩

theorem Passes.refl (c : Cursor) : Passes [] c c := ⟨rfl, rfl, fun read h => by rwa [List.append_nil]⟩

theorem Passes.trans (h : Passes text c c') (h' : Passes text' c' c'') : Passes (text ++ text') c c'' where
  current := by rw [h.current, h'.current, List.append_assoc]
  position := by rw [h'.position, h.position, List.length_append, Nat.add_assoc]
  place read hread := by
    rw [← List.append_assoc]
    exact h'.place _ (h.place _ hread)

theorem Passes.between_eq (h : Passes text c c') : c.between c' = text := by
  simp [between, h.current]

theorem current_advance (h : c.current = x :: rest) : c.advance.current = rest := by
  unfold advance
  rw [h]
  dsimp only
  split <;> rfl

theorem passes_advance (h : c.current = x :: rest) : Passes [x] c c.advance := by
  by_cases hx : x = '\n'
  · subst hx
    have hadv : c.advance = ⟨rest, c.line + 1, 1, c.position + 1⟩ := by simp [advance, h]
    rw [hadv]
    refine ⟨h, rfl, fun read hread => ⟨?_, ?_, ?_⟩⟩
    · simp [hread.position]
    · simp only [hread.line, List.count_append, List.count_singleton_self]
      omega
    · simp
  · have hadv : c.advance = ⟨rest, c.line, c.column + 1, c.position + 1⟩ := by simp [advance, h, hx]
    rw [hadv]
    refine ⟨h, rfl, fun read hread => ⟨?_, ?_, ?_⟩⟩
    · simp [hread.position]
    · simp [hread.line, List.count_append, hx]
    · simp only [hread.column, List.rtakeWhile_concat, bne_iff_ne, ne_eq, hx, not_false_eq_true, if_true,
        List.length_append, List.length_singleton]
      omega

theorem passes_advanceBy {n : Nat} (hn : n ≤ c.current.length) : Passes (c.current.take n) c (c.advanceBy n) := by
  induction n generalizing c with
  | zero => exact .refl c
  | succ n ih =>
    obtain ⟨x, rest, hcur⟩ : ∃ x rest, c.current = x :: rest := List.exists_cons_of_length_pos (by omega)
    have hrest := current_advance hcur
    have hlen : n ≤ c.advance.current.length := by
      rw [hcur] at hn
      rw [hrest]
      exact Nat.le_of_succ_le_succ hn
    have hpass := (passes_advance hcur).trans (ih hlen)
    rw [hrest] at hpass
    rw [hcur]
    exact hpass

theorem passes_advanceWhile (p : Char → Bool) (c : Cursor) : Passes (c.current.takeWhile p) c (c.advanceWhile p) := by
  have hpass := passes_advanceBy (c := c) (List.takeWhile_prefix p).length_le
  rwa [← List.prefix_iff_eq_take.mp (List.takeWhile_prefix p)] at hpass

theorem current_advanceWhile (p : Char → Bool) (c : Cursor) : (c.advanceWhile p).current = c.current.dropWhile p := by
  have hpass := (passes_advanceWhile p c).current
  nth_rewrite 1 [← List.takeWhile_append_dropWhile (p := p) (l := c.current)] at hpass
  exact (List.append_cancel_left hpass).symm

theorem passes_run (h : c.current = text ++ rest) (htext : ∀ y ∈ text, p y = true) (hrest : rest.head?.any p = false) :
    Passes text c (c.advanceWhile p) ∧ (c.advanceWhile p).current = rest := by
  have hstop : rest.takeWhile p = [] ∧ rest.dropWhile p = rest := by
    cases rest with
    | nil => exact ⟨rfl, rfl⟩
    | cons y rest =>
      have hy : p y = false := by simpa using hrest
      simp [hy]
  have hpass := passes_advanceWhile p c
  have hcur := current_advanceWhile p c
  rw [h, List.takeWhile_append_of_pos htext, hstop.1, List.append_nil] at hpass
  rw [h, List.dropWhile_append_of_pos htext, hstop.2] at hcur
  exact ⟨hpass, hcur⟩

theorem sees_advanceWhile (p : Char → Bool) (c : Cursor) : (c.advanceWhile p).sees p = false := by
  rw [sees, current_advanceWhile]
  induction c.current with
  | nil => rfl
  | cons x rest ih =>
    cases hx : p x with
    | true => simpa [hx] using ih
    | false => simp [hx]

end Cursor
