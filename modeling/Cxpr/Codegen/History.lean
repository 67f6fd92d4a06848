import Cxpr.Double
import Cxpr.Lib.SampleRing

/-! The history rings of the C that a model is compiled to (`src/model/codegen`). Four places of the generator print
    code for a ring: the type and its initial values, the reads, the reads with a computed offset and the capture at the
    end of a tick. Each is the meaning of the statements it prints here; the code is generated where a `size_t` has
    `hostBits` bits and runs where it has `bits`. -/

namespace Cxpr.Codegen
variable {D : Type}

def isPowerOfTwo (value : Nat) : Bool := value != 0 && value &&& (value - 1) == 0

def historyUseShift (depth : Nat) : Bool := depth ≤ 4

/-- The loop of `cxpr_model_c_history_capacity`. -/
def historyGrow (sizeMax depth : Nat) : Nat → Nat → Nat
  | 0, capacity => capacity
  | fuel + 1, capacity =>
    if capacity < depth ∧ capacity ≤ sizeMax / 2 then historyGrow sizeMax depth fuel (capacity * 2) else capacity

def historyCapacity (bits depth : Nat) : Nat :=
  if historyUseShift depth then depth
  else
    let capacity := historyGrow (2 ^ bits - 1) depth bits 1
    if capacity < depth then depth else capacity

/-- The bits of `cxpr_model_c_history_counter_type`: a `uint8_t` or a `size_t`. -/
def historyCounterBits (bits capacity : Nat) : Nat := if 255 < capacity then bits else 8

theorem le_historyCapacity (bits depth : Nat) : depth ≤ historyCapacity bits depth := by
  unfold historyCapacity
  dsimp only
  split
  · exact Nat.le_refl _
  · split
    · exact Nat.le_refl _
    · omega

theorem historyCapacity_of_shift {bits depth : Nat} (h : historyUseShift depth = true) : historyCapacity bits depth = depth :=
  if_pos h

/-! ### The emitted state -/

/-- A field `history_i` of the emitted state; only the rings have `next`. -/
structure History (D : Type) where
  values : List D
  next : Nat

structure State (D : Type) where
  init : Bool
  histories : List (History D)

/-- What the generator reads of a compiled model. The type of every history is a C type: its size in bytes is a
    `size_t`. -/
structure Program where
  hostBits : Nat
  bits : Nat
  depths : List Nat
  guarded : Bool
  sized : ∀ depth ∈ depths, 8 * historyCapacity hostBits depth < 2 ^ bits

namespace Program

def capacity (p : Program) (depth : Nat) : Nat := historyCapacity p.hostBits depth

/-- Sums and differences of `size_t` in the emitted code. -/
def add (p : Program) (a b : Nat) : Nat := (a + b) % 2 ^ p.bits

def sub (p : Program) (a b : Nat) : Nat := (a + 2 ^ p.bits - b) % 2 ^ p.bits

def zeroed [Double D] (p : Program) : State D :=
  ⟨false, p.depths.map fun depth => ⟨List.replicate (p.capacity depth) Double.zero, 0⟩⟩

/-- The function that `cxpr_model_c_emit_slot_init_function` prints. -/
def initState (nan : D) (p : Program) (s : State D) : State D :=
  ⟨true, List.zipWith (fun depth h =>
    if depth = 0 then h
    else ⟨List.replicate (p.capacity depth) nan, if historyUseShift depth then h.next else 0⟩) p.depths s.histories⟩

def start (nan : D) (p : Program) (s : State D) : State D := if s.init then s else p.initState nan s

def wrap (capacity index : Nat) : Nat :=
  if isPowerOfTwo capacity then index &&& (capacity - 1) else index % capacity

/-- The history read of `cxpr_model_ast_c_emit_leaf`. -/
def leaf (nan : D) (p : Program) (depth : Nat) (h : History D) (offset : Nat) : Option D :=
  let capacity := p.capacity depth
  if depth = 0 ∨ offset = 0 ∨ depth < offset then some nan
  else if historyUseShift depth then h.values[offset - 1]?
  else if capacity = 1 then h.values[0]?
  else if capacity - offset = 0 then h.values[h.next]?
  else h.values[wrap capacity (p.add h.next (capacity - offset))]?

def dynamicSlot (p : Program) (depth : Nat) (h : History D) (offset : Nat) : Option D :=
  if historyUseShift depth then h.values[p.sub offset 1]?
  else h.values[wrap (p.capacity depth) (p.sub (p.add h.next (p.capacity depth)) offset)]?

/-- `cxpr_model_c_emit_dynamic_history_value`, which the loops over windows use. -/
def dynamicHistoryValue (nan : D) (p : Program) (depth : Nat) (h : History D) (current : D) (offset : Nat) : Option D :=
  if offset = 0 then some current
  else if offset ≤ depth then p.dynamicSlot depth h offset
  else some nan

/-- `cxpr_model_ast_c_emit_lookback` outside of other lookbacks. -/
def lookback [Double D] (nan : D) (p : Program) (depth : Nat) (h : History D) (current index : D) : Option D :=
  if Double.le index Double.zero then some current
  else if Double.le index (Double.ofNat depth) then p.dynamicSlot depth h (Double.toSize index)
  else some nan

def shifted : Nat → List D → List D
  | j + 2, values =>
    shifted (j + 1) (match values[j]? with | some v => values.set (j + 1) v | none => values)
  | _, values => values

def makeRoom (depth : Nat) (h : History D) : History D :=
  if historyUseShift depth then { h with values := shifted depth h.values } else h

/-- The part of a capture that stores the value; `next` is the local that the function starts with. -/
def store (p : Program) (depth next : Nat) (v : D) (h : History D) : History D :=
  if historyUseShift depth then { h with values := h.values.set 0 v }
  else ⟨h.values.set next v, wrap (p.capacity depth) (p.add next 1) % 2 ^ historyCounterBits p.bits (p.capacity depth)⟩

/-- The capture of history `i`, with the captured value. The value can read every history as the captures before leave
    it, and this one with room made. -/
def capture (p : Program) (next : Nat → Nat) (current : Nat → List (History D) → D) (i depth : Nat) (hs : List (History D)) :
    List (History D) × D :=
  if depth = 0 then (hs, current i hs)
  else
    let hs := hs.modify i (makeRoom depth)
    let v := current i hs
    (hs.modify i (p.store depth (next i) v), v)

def captures (p : Program) (next : Nat → Nat) (current : Nat → List (History D) → D) :
    Nat → List Nat → List (History D) → List (History D) × List D
  | _, [], hs => (hs, [])
  | i, depth :: depths, hs =>
    let (hs, v) := p.capture next current i depth hs
    let (hs, vs) := captures p next current (i + 1) depths hs
    (hs, v :: vs)

end Program

/-- What a tick of the emitted function gets: whether the guard on invalid input passes, and the values of the
    expressions that are captured. -/
structure Turn (D : Type) where
  passes : Bool
  current : Nat → List (History D) → D

namespace Program

/-- A tick, with the values that it captures. The guard returns before the captures. -/
def tick (nan : D) (p : Program) (turn : Turn D) (s : State D) : State D × Option (List D) :=
  let s := p.start nan s
  if p.guarded && !turn.passes then (s, none)
  else
    let next := fun i => match s.histories[i]? with | some h => h.next | none => 0
    let (hs, vs) := p.captures next turn.current 0 p.depths s.histories
    ({ s with histories := hs }, some vs)

/-- A run from a zeroed state, with the captured values of its ticks, the latest one first. -/
def run [Double D] (nan : D) (p : Program) (turns : List (Turn D)) : State D × List (Option (List D)) :=
  turns.foldl (fun (s, log) turn =>
    let (s, captured) := p.tick nan turn s
    (s, captured :: log)) (p.zeroed, [])

end Program

/-! ### One history -/

namespace Program

theorem wrap_eq_mod (capacity index : Nat) : wrap capacity index = index % capacity := by
  unfold wrap isPowerOfTwo
  split
  · rename_i hpow
    simp only [Bool.and_eq_true, bne_iff_ne, beq_iff_eq] at hpow
    obtain ⟨k, rfl⟩ := Nat.ne_zero_and_sub_one_eq_zero_iff_isPowerOfTwo.mp hpow
    exact Nat.and_two_pow_sub_one_eq_mod index k
  · rfl

theorem length_shifted (j : Nat) (values : List D) : (shifted j values).length = values.length := by
  induction j generalizing values with
  | zero => rfl
  | succ j ih =>
    cases j with
    | zero => rfl
    | succ j =>
      rw [shifted, ih]
      split
      · exact List.length_set
      · rfl

theorem getElem?_shifted {j : Nat} {values : List D} (hj : j ≤ values.length) (m : Nat) :
    (shifted j values)[m]? = if m = 0 ∨ j ≤ m then values[m]? else values[m - 1]? := by
  induction j generalizing values with
  | zero => rw [if_pos (.inr (Nat.zero_le m))]; rfl
  | succ j ih =>
    cases j with
    | zero =>
      rw [if_pos (by omega)]
      rfl
    | succ j =>
      have hget : values[j]? = some values[j] := List.getElem?_eq_getElem (by omega)
      rw [shifted, hget]
      dsimp only
      rw [ih (by rw [List.length_set]; omega)]
      by_cases hm : m = j + 1
      · subst hm
        rw [if_pos (.inr (Nat.le_refl _)), if_neg (by omega), List.getElem?_set_self (by omega), Nat.add_sub_cancel, hget]
      · rw [List.getElem?_set_ne (Ne.symm hm)]
        by_cases hlast : m = 0 ∨ j + 1 ≤ m
        · rw [if_pos hlast, if_pos (by omega)]
        · rw [if_neg hlast, if_neg (by omega), List.getElem?_set_ne (by omega)]

variable {depth : Nat} {p : Program}

theorem set_shifted {values : List D} (hdepth : 0 < depth) (hlength : values.length = depth) (v : D) :
    (shifted depth values).set 0 v = (v :: values).take depth := by
  refine List.ext_getElem? fun m => ?_
  cases m with
  | zero =>
    rw [List.getElem?_set_self (by rw [length_shifted]; omega), List.getElem?_take_of_lt hdepth]
    rfl
  | succ m =>
    rw [List.getElem?_set_ne (by omega), getElem?_shifted (Nat.le_of_eq hlength.symm)]
    by_cases hm : depth ≤ m + 1
    · rw [if_pos (.inr hm), List.getElem?_take_eq_none hm, List.getElem?_eq_none_iff]
      omega
    · rw [if_neg (by omega), List.getElem?_take_of_lt (by omega)]
      rfl

/-- The values that a history keeps are the last of `past`, the newest one first, and NaN before them. -/
structure Kept (nan : D) (p : Program) (depth : Nat) (past : List D) (h : History D) : Prop where
  length : h.values.length = p.capacity depth
  shift : historyUseShift depth = true → h.values = (past ++ List.replicate depth nan).take depth
  ring : historyUseShift depth = false →
    (⟨h.values, h.values.length, h.next⟩ : SampleRing D).Holds (past ++ List.replicate (p.capacity depth) nan)

theorem capacity_pos (p : Program) (hdepth : depth ≠ 0) : 0 < p.capacity depth :=
  Nat.lt_of_lt_of_le (Nat.pos_of_ne_zero hdepth) (le_historyCapacity p.hostBits depth)

theorem next_lt {nan : D} {past : List D} {h : History D} (hk : Kept nan p depth past h)
    (hdepth : depth ≠ 0) (hring : historyUseShift depth = false) : h.next < p.capacity depth := by
  have hpos := capacity_pos p hdepth
  rw [← hk.length] at hpos ⊢
  exact (hk.ring hring).next hpos

theorem capacity_le_counter (hmem : depth ∈ p.depths) :
    p.capacity depth ≤ 2 ^ historyCounterBits p.bits (p.capacity depth) := by
  unfold historyCounterBits
  split
  · have hsized := p.sized depth hmem
    unfold capacity
    omega
  · omega

theorem kept_init (nan : D) (p : Program) (depth next : Nat) :
    Kept nan p depth [] ⟨List.replicate (p.capacity depth) nan, if historyUseShift depth then next else 0⟩ where
  length := List.length_replicate
  shift := by
    intro hshift
    rw [capacity, historyCapacity_of_shift hshift, List.nil_append, List.take_replicate, Nat.min_self]
  ring := by
    intro hring
    rw [hring, List.nil_append, List.length_replicate]
    exact SampleRing.holds_replicate _ _

theorem Kept.capture {nan : D} {past : List D} {h : History D} (hk : Kept nan p depth past h)
    (hmem : depth ∈ p.depths) (hdepth : depth ≠ 0) (v : D) :
    Kept nan p depth (v :: past) (p.store depth h.next v (makeRoom depth h)) := by
  unfold store makeRoom
  by_cases hshift : historyUseShift depth = true
  · have hcap : p.capacity depth = depth := historyCapacity_of_shift hshift
    have hlength : h.values.length = depth := hk.length.trans hcap
    rw [if_pos hshift, if_pos hshift]
    refine ⟨?_, fun _ => ?_, fun hring => absurd hshift (by rw [hring]; decide)⟩
    · show ((shifted depth h.values).set 0 v).length = _
      rw [List.length_set, length_shifted, hk.length]
    · show (shifted depth h.values).set 0 v = _
      rw [set_shifted (Nat.pos_of_ne_zero hdepth) hlength, hk.shift hshift]
      obtain ⟨depth, rfl⟩ : ∃ n, depth = n + 1 := ⟨depth - 1, by omega⟩
      rw [List.take_succ_cons, List.take_take, List.cons_append, List.take_succ_cons, Nat.min_eq_left (Nat.le_succ depth)]
  · have hring : historyUseShift depth = false := by simpa using hshift
    rw [if_neg hshift, if_neg hshift]
    have hpos := capacity_pos p hdepth
    have hnext := next_lt hk hdepth hring
    have hsized : 8 * p.capacity depth < 2 ^ p.bits := p.sized depth hmem
    have hadd : p.add h.next 1 = h.next + 1 := Nat.mod_eq_of_lt (by omega)
    have hstored : wrap (p.capacity depth) (p.add h.next 1) % 2 ^ historyCounterBits p.bits (p.capacity depth) =
        (h.next + 1) % p.capacity depth := by
      rw [wrap_eq_mod, hadd]
      exact Nat.mod_eq_of_lt (Nat.lt_of_lt_of_le (Nat.mod_lt _ hpos) (capacity_le_counter hmem))
    refine ⟨List.length_set.trans hk.length, fun h => absurd h hshift, fun _ => ?_⟩
    have hpush := (hk.ring hring).push v
    rw [SampleRing.push, if_neg (by rw [hk.length]; omega), if_neg (Nat.lt_irrefl _)] at hpush
    dsimp only at hpush ⊢
    rw [hstored, List.length_set, ← hk.length]
    rw [← hk.length] at hpush
    exact hpush

theorem getElem?_padded (past : List D) (nan : D) {m n : Nat} (hm : m < n) :
    (past ++ List.replicate n nan)[m]? = some ((past[m]?).getD nan) := by
  by_cases hpast : m < past.length
  · rw [List.getElem?_append_left hpast, List.getElem?_eq_getElem hpast]
    rfl
  · rw [List.getElem?_append_right (Nat.not_lt.mp hpast), List.getElem?_replicate_of_lt (by omega),
      List.getElem?_eq_none_iff.mpr (Nat.not_lt.mp hpast)]
    rfl

section
variable {nan : D} {p : Program} {depth : Nat} {past : List D} {h : History D}

variable {offset : Nat}

theorem Kept.shift_slot (hk : Kept nan p depth past h) (hshift : historyUseShift depth = true)
    (hpos : 0 < offset) (hle : offset ≤ depth) : h.values[offset - 1]? = some ((past[offset - 1]?).getD nan) := by
  rw [hk.shift hshift, List.getElem?_take_of_lt (by omega), getElem?_padded past nan (by omega)]

theorem Kept.ring_slot (hk : Kept nan p depth past h) (hring : historyUseShift depth = false)
    (hpos : 0 < offset) (hle : offset ≤ p.capacity depth) :
    h.values[(h.next + p.capacity depth - offset) % p.capacity depth]? = some ((past[offset - 1]?).getD nan) := by
  have hnewest := (hk.ring hring).newest (offset - 1)
  simp only [SampleRing.newest, hk.length] at hnewest
  rw [if_pos (by omega), List.getElem?_take_of_lt (by omega), getElem?_padded past nan (by omega), Nat.sub_sub,
    Nat.add_sub_cancel' hpos] at hnewest
  exact hnewest

theorem Kept.leaf (hk : Kept nan p depth past h) (hmem : depth ∈ p.depths) (hpos : 0 < offset)
    (hle : offset ≤ depth) : p.leaf nan depth h offset = some ((past[offset - 1]?).getD nan) := by
  have hcap : depth ≤ p.capacity depth := le_historyCapacity p.hostBits depth
  unfold Program.leaf
  dsimp only
  rw [if_neg (by omega)]
  by_cases hshift : historyUseShift depth = true
  · rw [if_pos hshift]
    exact hk.shift_slot hshift hpos hle
  · have hring : historyUseShift depth = false := by simpa using hshift
    have hdeep : 4 < depth := by simpa [historyUseShift] using hshift
    have hslot := hk.ring_slot hring hpos (Nat.le_trans hle hcap)
    have hnext := next_lt hk (by omega) hring
    have hsized : 8 * p.capacity depth < 2 ^ p.bits := p.sized depth hmem
    rw [if_neg hshift, if_neg (by omega)]
    split
    · have hfull : h.next + p.capacity depth - offset = h.next := by omega
      rwa [hfull, Nat.mod_eq_of_lt hnext] at hslot
    · have hadd : p.add h.next (p.capacity depth - offset) = h.next + p.capacity depth - offset := by
        rw [add, ← Nat.add_sub_assoc (by omega)]
        exact Nat.mod_eq_of_lt (by omega)
      rw [wrap_eq_mod, hadd]
      exact hslot

theorem Kept.dynamicSlot (hk : Kept nan p depth past h) (hmem : depth ∈ p.depths) (hpos : 0 < offset)
    (hle : offset ≤ depth) : p.dynamicSlot depth h offset = some ((past[offset - 1]?).getD nan) := by
  have hcap : depth ≤ p.capacity depth := le_historyCapacity p.hostBits depth
  have hsized : 8 * p.capacity depth < 2 ^ p.bits := p.sized depth hmem
  unfold Program.dynamicSlot
  by_cases hshift : historyUseShift depth = true
  · have hsub : p.sub offset 1 = offset - 1 := by
      rw [sub, Nat.sub_add_comm hpos, Nat.add_mod_right]
      exact Nat.mod_eq_of_lt (by omega)
    rw [if_pos hshift, hsub]
    exact hk.shift_slot hshift hpos hle
  · have hring : historyUseShift depth = false := by simpa using hshift
    have hnext := next_lt hk (by omega) hring
    have hadd : p.add h.next (p.capacity depth) = h.next + p.capacity depth := Nat.mod_eq_of_lt (by omega)
    have hsub : p.sub (h.next + p.capacity depth) offset = h.next + p.capacity depth - offset := by
      rw [sub, Nat.sub_add_comm (by omega), Nat.add_mod_right]
      exact Nat.mod_eq_of_lt (by omega)
    rw [if_neg hshift, wrap_eq_mod, hadd, hsub]
    exact hk.ring_slot hring hpos (Nat.le_trans hle hcap)

theorem Kept.dynamicHistoryValue (hk : Kept nan p depth past h) (hmem : depth ∈ p.depths) (current : D)
    (hpos : 0 < offset) (hle : offset ≤ depth) :
    p.dynamicHistoryValue nan depth h current offset = some ((past[offset - 1]?).getD nan) := by
  rw [Program.dynamicHistoryValue, if_neg (Nat.pos_iff_ne_zero.mp hpos), if_pos hle]
  exact hk.dynamicSlot hmem hpos hle

structure Integral [Double D] (index : D) (k : Nat) : Prop where
  positive : Double.le index Double.zero = false
  bounded : ∀ n, k ≤ n → Double.le index (Double.ofNat n) = true
  size : Double.toSize index = k

theorem Kept.lookback [Double D] (hk : Kept nan p depth past h) (hmem : depth ∈ p.depths) (current : D) {index : D} (hindex : Integral index offset) (hpos : 0 < offset) (hle : offset ≤ depth) :
    p.lookback nan depth h current index = some ((past[offset - 1]?).getD nan) := by
  rw [Program.lookback, hindex.positive, hindex.bounded depth hle, hindex.size, if_neg Bool.false_ne_true, if_pos rfl]
  exact hk.dynamicSlot hmem hpos hle

end

/-! ### Runs -/

theorem capture_spec (p : Program) (next : Nat → Nat) (current : Nat → List (History D) → D) (i depth : Nat)
    (hs : List (History D)) :
    (p.capture next current i depth hs).1.length = hs.length ∧
      (∀ j ≠ i, (p.capture next current i depth hs).1[j]? = hs[j]?) ∧
      (depth ≠ 0 → ∀ h, hs[i]? = some h → (p.capture next current i depth hs).1[i]? =
        some (p.store depth (next i) (p.capture next current i depth hs).2 (makeRoom depth h))) := by
  unfold capture
  split
  · rename_i hzero
    exact ⟨rfl, fun _ _ => rfl, fun hdepth => absurd hzero hdepth⟩
  · refine ⟨by simp, fun j hj => ?_, fun _ h hh => ?_⟩
    · simp [List.getElem?_modify_ne _ _ (Ne.symm hj)]
    · simp [hh]

theorem captures_spec (p : Program) (next : Nat → Nat) (current : Nat → List (History D) → D) (i : Nat)
    (depths : List Nat) (hs : List (History D)) :
    (p.captures next current i depths hs).1.length = hs.length ∧
      (∀ j < i, (p.captures next current i depths hs).1[j]? = hs[j]?) ∧
      ∀ m depth h, depths[m]? = some depth → depth ≠ 0 → hs[i + m]? = some h →
        ∃ v, (p.captures next current i depths hs).2[m]? = some v ∧
          (p.captures next current i depths hs).1[i + m]? = some (p.store depth (next (i + m)) v (makeRoom depth h)) := by
  induction depths generalizing i hs with
  | nil => exact ⟨rfl, fun _ _ => rfl, fun m depth h hm => nomatch hm⟩
  | cons depth₀ depths ih =>
    obtain ⟨hlength, hother, hself⟩ := capture_spec p next current i depth₀ hs
    obtain ⟨hlength', hbefore, hafter⟩ := ih (i + 1) (p.capture next current i depth₀ hs).1
    refine ⟨hlength'.trans hlength, fun j hj => ?_, fun m depth h hm hdepth hh => ?_⟩
    · exact (hbefore j (by omega)).trans (hother j (by omega))
    · cases m with
      | zero =>
        cases hm
        exact ⟨_, rfl, (hbefore i (Nat.lt_succ_self i)).trans (hself hdepth h hh)⟩
      | succ m =>
        have hh' : (p.capture next current i depth₀ hs).1[i + 1 + m]? = some h := by
          rw [hother _ (by omega), ← hh]
          congr 1
          omega
        obtain ⟨v, hv, hstored⟩ := hafter m depth h hm hdepth hh'
        rw [show i + (m + 1) = i + 1 + m by omega]
        exact ⟨v, hv, hstored⟩

/-- The values of history `i` that the ticks of a run captured, the latest one first. -/
def column (i : Nat) (log : List (Option (List D))) : List D := log.filterMap fun captured => captured.bind (·[i]?)

def Keeps (nan : D) (p : Program) (log : List (Option (List D))) (s : State D) : Prop :=
  s.init = true ∧ ∀ (i depth : Nat), p.depths[i]? = some depth → depth ≠ 0 →
    ∃ h, s.histories[i]? = some h ∧ Kept nan p depth (column i log) h

theorem keeps_start (nan : D) {s : State D} (hinit : s.init = false) (hlength : s.histories.length = p.depths.length) :
    Keeps nan p [] (p.start nan s) := by
  rw [start, hinit, if_neg Bool.false_ne_true]
  refine ⟨rfl, fun i depth hdepth hpos => ?_⟩
  obtain ⟨hi, rfl⟩ := List.getElem?_eq_some_iff.mp hdepth
  have hh : s.histories[i]? = some s.histories[i] := List.getElem?_eq_getElem (by omega)
  refine ⟨_, ?_, kept_init nan p p.depths[i] s.histories[i].next⟩
  rw [initState, List.getElem?_zipWith, hdepth, hh]
  simp only [if_neg hpos]

theorem start_of_init {nan : D} {s : State D} (hinit : s.init = true) : p.start nan s = s := if_pos hinit

theorem Keeps.tick {nan : D} {p : Program} {log : List (Option (List D))} {s : State D} (h : Keeps nan p log (p.start nan s))
    (turn : Turn D) : Keeps nan p ((p.tick nan turn s).2 :: log) (p.tick nan turn s).1 := by
  unfold Program.tick
  dsimp only
  split
  · exact h
  · obtain ⟨hinit, hkept⟩ := h
    refine ⟨hinit, fun i depth hdepth hpos => ?_⟩
    obtain ⟨r, hr, hk⟩ := hkept i depth hdepth hpos
    have hspec := (captures_spec p (fun i => match (p.start nan s).histories[i]? with | some h => h.next | none => 0)
      turn.current 0 p.depths (p.start nan s).histories).2.2 i depth r hdepth hpos (by rwa [Nat.zero_add])
    rw [Nat.zero_add] at hspec
    obtain ⟨v, hv, hstored⟩ := hspec
    refine ⟨_, hstored, ?_⟩
    have hcolumn : column i (some (p.captures (fun i => match (p.start nan s).histories[i]? with | some h => h.next | none => 0)
        turn.current 0 p.depths (p.start nan s).histories).2 :: log) = v :: column i log := by
      rw [column, List.filterMap_cons, Option.bind_some, hv]
      rfl
    rw [hcolumn, hr]
    exact hk.capture (List.mem_of_getElem? hdepth) hpos v

theorem Keeps.run [Double D] (nan : D) (p : Program) (turns : List (Turn D)) :
    Keeps nan p (p.run nan turns).2 (p.start nan (p.run nan turns).1) := by
  unfold Program.run
  have hstep : ∀ (s : State D) (log : List (Option (List D))), Keeps nan p log (p.start nan s) →
      Keeps nan p (turns.foldl (fun (s, log) turn => ((p.tick nan turn s).1, (p.tick nan turn s).2 :: log)) (s, log)).2
        (p.start nan (turns.foldl (fun (s, log) turn => ((p.tick nan turn s).1, (p.tick nan turn s).2 :: log)) (s, log)).1) := by
    induction turns with
    | nil => exact fun s log h => h
    | cons turn turns ih =>
      intro s log h
      have hnext := h.tick turn
      exact ih _ _ (by rwa [start_of_init hnext.1])
  exact hstep _ _ (keeps_start nan rfl (by simp [zeroed]))

def captureIndices (depth : Nat) (h : History D) : List Nat := if historyUseShift depth then List.range depth else [h.next]

def nextCounter (p : Program) (depth : Nat) (h : History D) : Nat := wrap (p.capacity depth) (p.add h.next 1)

/-- In every run from a zeroed state, a history reads at offset `k` what was captured `k` ticks ago, by every form of read,
    and NaN when there was no such tick; a tick that the guard on invalid input ends captures nothing and does not count.
    The captures stay inside the values, and the counter fits its type. -/
theorem history_reads [Double D] (nan : D) (p : Program) (turns : List (Turn D)) {i depth : Nat}
    (hdepth : p.depths[i]? = some depth) (hpos : 1 ≤ depth) :
    ∃ h, (p.start nan (p.run nan turns).1).histories[i]? = some h ∧
      (∀ k, 1 ≤ k → k ≤ depth →
        p.leaf nan depth h k = some (((column i (p.run nan turns).2)[k - 1]?).getD nan) ∧
        (∀ current, p.dynamicHistoryValue nan depth h current k =
          some (((column i (p.run nan turns).2)[k - 1]?).getD nan)) ∧
        ∀ current index, Integral index k →
          p.lookback nan depth h current index = some (((column i (p.run nan turns).2)[k - 1]?).getD nan)) ∧
      (∀ j ∈ captureIndices depth h, j < h.values.length) ∧
      (historyUseShift depth = false →
        h.next < 2 ^ historyCounterBits p.bits (p.capacity depth) ∧
          p.nextCounter depth h < 2 ^ historyCounterBits p.bits (p.capacity depth)) := by
  have hne : depth ≠ 0 := Nat.pos_iff_ne_zero.mp hpos
  have hmem : depth ∈ p.depths := List.mem_of_getElem? hdepth
  obtain ⟨_, hkept⟩ := Keeps.run nan p turns
  obtain ⟨h, hh, hk⟩ := hkept i depth hdepth hne
  refine ⟨h, hh, fun k hk₁ hk₂ => ?_, fun j hj => ?_, fun hring => ?_⟩
  · exact ⟨hk.leaf hmem hk₁ hk₂, fun current => hk.dynamicHistoryValue hmem current hk₁ hk₂,
      fun current index hindex => hk.lookback hmem current hindex hk₁ hk₂⟩
  · rw [hk.length]
    unfold captureIndices at hj
    split at hj
    · exact Nat.lt_of_lt_of_le (List.mem_range.mp hj) (le_historyCapacity p.hostBits depth)
    · rename_i hring
      obtain rfl := List.mem_singleton.mp hj
      exact next_lt hk hne (by simpa using hring)
  · have hcounter := capacity_le_counter hmem
    rw [nextCounter, wrap_eq_mod]
    exact ⟨Nat.lt_of_lt_of_le (next_lt hk hne hring) hcounter,
      Nat.lt_of_lt_of_le (Nat.mod_lt _ (capacity_pos p hne)) hcounter⟩

def sampled : Program where
  hostBits := 64
  bits := 64
  depths := [2, 5]
  guarded := false
  sized := by decide +kernel

def capturing (v : Int) : Turn Int := ⟨true, fun _ _ => v⟩

theorem sampled_history_reads :
    sampled.depths[1]? = some 5 ∧ Integral (5 : Int) 5 ∧
      ∃ h, (sampled.start (-1) (sampled.run (-1) [capturing 10, capturing 11]).1).histories[1]? = some h ∧
        sampled.lookback (-1) 5 h 0 5 = some (((column 1 (sampled.run (-1) [capturing 10, capturing 11]).2)[5 - 1]?).getD (-1)) := by
  have hindex : Integral (5 : Int) 5 := ⟨rfl, fun n hn => decide_eq_true (Int.ofNat_le.mpr hn), rfl⟩
  obtain ⟨h, hh, hreads, _⟩ := history_reads (-1) sampled [capturing 10, capturing 11] (i := 1) rfl (by decide)
  exact ⟨rfl, hindex, h, hh, (hreads 5 (by decide) (by decide)).2.2 0 5 hindex⟩

def guardedModel : Program where
  hostBits := 64
  bits := 64
  depths := [2]
  guarded := true
  sized := by decide +kernel

def invalidTurn : Turn Int := ⟨false, fun _ _ => 0⟩

/-- Tick 1 captures 10 and tick 2 has invalid input; in tick 3 the read at offset 2 does not give the 10 of tick 1. -/
theorem guarded_read_skips :
    (guardedModel.run (-1) [capturing 10, invalidTurn]).2 = [none, some [10]] ∧
      ∃ h, (guardedModel.start (-1) (guardedModel.run (-1) [capturing 10, invalidTurn]).1).histories[0]? = some h ∧
        guardedModel.leaf (-1) 2 h 2 = some (-1) ∧ guardedModel.leaf (-1) 2 h 2 ≠ some 10 :=
  ⟨rfl, _, rfl, rfl, by decide⟩

end Program

end Cxpr.Codegen
