import Mathlib.Data.List.Induction

/-! Programs that read and write single cells of a memory through pointers. The memory goes on at both sides of what a
    program owns, and every cell that was read or written is on record. A program that runs out of fuel has no result. -/

namespace Bytes
variable {α : Type}

structure Memory (α : Type) where
  bytes : Int → α
  /-- The pointers that were followed, last first. -/
  touched : List Int := []

namespace Memory

def read (m : Memory α) (p : Int) : Memory α := { m with touched := p :: m.touched }

def write (m : Memory α) (p : Int) (a : α) : Memory α := ⟨fun q => if q = p then a else m.bytes q, p :: m.touched⟩

@[simp] theorem bytes_read (m : Memory α) (p : Int) : (m.read p).bytes = m.bytes := rfl

@[simp] theorem bytes_write (m : Memory α) (p : Int) (a : α) :
    (m.write p a).bytes = fun q => if q = p then a else m.bytes q := rfl

@[simp] theorem touched_read (m : Memory α) (p : Int) : (m.read p).touched = p :: m.touched := rfl

@[simp] theorem touched_write (m : Memory α) (p : Int) (a : α) : (m.write p a).touched = p :: m.touched := rfl

end Memory

abbrev Access (α β : Type) := StateT (Memory α) Option β

def load (p : Int) : Access α α := fun m => some (m.bytes p, m.read p)

def store (p : Int) (a : α) : Access α Unit := fun m => some ((), m.write p a)

variable {β : Type}

theorem load_bind (p : Int) (k : α → Access α β) (m : Memory α) : (load p >>= k) m = k (m.bytes p) (m.read p) :=
  rfl

theorem store_bind (p : Int) (a : α) (k : Unit → Access α β) (m : Memory α) :
    (store p a >>= k) m = k () (m.write p a) := rfl

theorem bind_run {γ : Type} {act : Access α β} {k : β → Access α γ} {m m' : Memory α} {b : β}
    (h : act m = some (b, m')) : (act >>= k) m = k b m' := by
  simp [bind, StateT.bind, h]

def skipWhile (c : α → Bool) : Nat → Int → Access α Int
  | 0, _ => fun _ => none
  | fuel + 1, p => do if c (← load p) then skipWhile c fuel (p + 1) else pure p

/-- An end pointer that goes back as long as a condition holds of the cell before it, as its distance from `p`. -/
def dropBack (c : α → Bool) (p : Int) : Nat → Access α Nat
  | 0 => pure 0
  | n + 1 => do if c (← load (p + n)) then dropBack c p n else pure (n + 1)

def Lies (bytes : Int → α) (p : Int) (s : List α) : Prop := ∀ (i : Nat) a, s[i]? = some a → bytes (p + i) = a

variable {bytes : Int → α} {p q : Int} {s t : List α} {a : α}

theorem lies_append : Lies bytes p (s ++ t) ↔ Lies bytes p s ∧ Lies bytes (p + s.length) t := by
  constructor
  · intro h
    refine ⟨fun i a hi => h i a ?_, fun i a hi => ?_⟩
    · rw [List.getElem?_append_left (List.getElem?_eq_some_iff.mp hi).1, hi]
    · have hbyte := h (s.length + i) a (by rw [List.getElem?_append_right (by omega), Nat.add_sub_cancel_left, hi])
      rw [← hbyte, Int.natCast_add, Int.add_assoc]
  · rintro ⟨hs, ht⟩ i a hi
    rcases Nat.lt_or_ge i s.length with hlt | hge
    · exact hs i a (by rwa [List.getElem?_append_left hlt] at hi)
    · rw [List.getElem?_append_right hge] at hi
      rw [← ht _ a hi]
      congr 1
      omega

theorem lies_singleton : Lies bytes p [a] ↔ bytes p = a := by
  constructor
  · intro h
    simpa using h 0 a rfl
  · rintro h (_ | i) b hb
    · simpa [h] using hb
    · simp at hb

theorem lies_cons : Lies bytes p (a :: s) ↔ bytes p = a ∧ Lies bytes (p + 1) s := by
  rw [← List.singleton_append, lies_append, lies_singleton]
  rfl

theorem Lies.write {m : Memory α} (h : Lies m.bytes p s) (hq : q < p ∨ p + s.length ≤ q) :
    Lies (m.write q a).bytes p s := by
  intro i b hi
  have hlt := (List.getElem?_eq_some_iff.mp hi).1
  rw [← h i b hi]
  exact if_neg (by omega)

def Within (lo hi : Int) (m m' : Memory α) : Prop := ∀ q ∈ m'.touched, q ∈ m.touched ∨ lo ≤ q ∧ q ≤ hi

variable {lo hi lo' hi' : Int} {m m' m'' : Memory α}

theorem Within.refl : Within lo hi m m := fun _ hq => .inl hq

theorem Within.trans (h : Within lo hi m m') (h' : Within lo hi m' m'') : Within lo hi m m'' := fun q hq =>
  (h' q hq).elim (h q) .inr

theorem Within.mono (h : Within lo hi m m') (hlo : lo' ≤ lo) (hhi : hi ≤ hi') : Within lo' hi' m m' := fun q hq =>
  (h q hq).imp id fun hq => ⟨by omega, by omega⟩

theorem within_read (hlo : lo ≤ p) (hhi : p ≤ hi) : Within lo hi m (m.read p) := by
  rintro q hq
  rcases List.mem_cons.mp hq with rfl | hq
  · exact .inr ⟨hlo, hhi⟩
  · exact .inl hq

theorem within_write (hlo : lo ≤ p) (hhi : p ≤ hi) : Within lo hi m (m.write p a) := by
  rintro q hq
  rcases List.mem_cons.mp hq with rfl | hq
  · exact .inr ⟨hlo, hhi⟩
  · exact .inl hq

theorem skipWhile_eq {c : α → Bool} {fuel : Nat} (h : Lies m.bytes p (s ++ [a])) (hs : ∀ b ∈ s, c b = true)
    (ha : c a = false) (hfuel : s.length < fuel) :
    ∃ m', skipWhile c fuel p m = some (p + s.length, m') ∧ m'.bytes = m.bytes ∧ Within p (p + s.length) m m' := by
  induction s generalizing fuel p m with
  | nil =>
    obtain ⟨fuel, rfl⟩ := Nat.exists_eq_succ_of_ne_zero (Nat.ne_of_gt hfuel)
    have hbyte : m.bytes p = a := lies_singleton.mp h
    refine ⟨m.read p, ?_, rfl, within_read (Int.le_refl p) (by simp)⟩
    rw [skipWhile, load_bind, hbyte, ha, if_neg (by simp)]
    rw [List.length_nil, Int.natCast_zero, Int.add_zero]
    rfl
  | cons b s ih =>
    obtain ⟨fuel, rfl⟩ := Nat.exists_eq_succ_of_ne_zero (Nat.ne_of_gt (Nat.zero_lt_of_lt hfuel))
    obtain ⟨hbyte, hrest⟩ := lies_cons.mp h
    obtain ⟨m', hrun, hbytes, hwithin⟩ := @ih (p + 1) (m.read p) fuel hrest
      (fun d hd => hs d (List.mem_cons_of_mem b hd)) (Nat.lt_of_succ_lt_succ hfuel)
    have hend : p + 1 + (s.length : Int) = p + ((b :: s).length : Int) := by
      rw [List.length_cons, Int.natCast_add]
      omega
    refine ⟨m', ?_, hbytes, ?_⟩
    · rw [← hend, ← hrun, skipWhile, load_bind, hbyte, if_pos (hs b (List.mem_cons_self ..))]
    · rw [← hend]
      exact (within_read (Int.le_refl p) (by omega)).trans (hwithin.mono (by omega) (Int.le_refl _))

theorem dropBack_eq {c : α → Bool} (h : Lies m.bytes p (s ++ t)) (ht : ∀ b ∈ t, c b = true)
    (hs : ∀ b ∈ s.getLast?, c b = false) :
    ∃ m', dropBack c p (s ++ t).length m = some (s.length, m') ∧ m'.bytes = m.bytes ∧
      Within p (p + (s ++ t).length) m m' := by
  induction t using List.reverseRecOn generalizing m with
  | nil =>
    rw [List.append_nil] at h ⊢
    rcases List.eq_nil_or_concat s with rfl | ⟨s, b, rfl⟩
    · exact ⟨m, rfl, rfl, .refl⟩
    · rw [List.concat_eq_append] at h hs ⊢
      have hbyte : m.bytes (p + s.length) = b := lies_singleton.mp (lies_append.mp h).2
      have hb : c b = false := hs b (by simp)
      rw [List.length_append, List.length_singleton]
      refine ⟨m.read (p + s.length), ?_, rfl, within_read (by omega) (by omega)⟩
      rw [dropBack, load_bind, hbyte, hb]
      rfl
  | append_singleton t b ih =>
    rw [← List.append_assoc] at h ⊢
    have hbyte : m.bytes (p + (s ++ t).length) = b := lies_singleton.mp (lies_append.mp h).2
    obtain ⟨m', hrun, hbytes, hwithin⟩ := @ih (m.read (p + (s ++ t).length)) (lies_append.mp h).1
      (fun d hd => ht d (List.mem_append_left _ hd))
    rw [@List.length_append _ (s ++ t) [b], List.length_singleton]
    refine ⟨m', ?_, hbytes, ?_⟩
    · rw [← hrun, dropBack, load_bind, hbyte, if_pos (ht b (by simp))]
    · exact (within_read (by omega) (by omega)).trans (hwithin.mono (Int.le_refl p) (by omega))

end Bytes
