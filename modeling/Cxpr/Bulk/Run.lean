import Cxpr.Bulk.Snapshot

/-! Bulk execution (`src/bulk.c`): one evaluation of a generated model for each element of a view. The memory is that of
    the columns, in cells of one value each, and the block of the states, in bytes. An element reads and writes cells of
    its own, so that the ranges of a partition can be run in any order. -/

namespace Cxpr.Bulk
open Block
variable {V : Type}

inductive BulkStatus where
  | ok | invalidArgument | invalidDescriptor | schemaMismatch | missingBuffer | stateStrideTooSmall | rangeOutOfBounds
deriving DecidableEq, Repr

/-- `cxpr_bulk_const_column` and `cxpr_bulk_column`: the address of the first cell, or `NULL`, and the cells from one
    element to the next. -/
structure Column where
  values : Option Nat
  stride : UInt64

def Column.cell (c : Column) (i : Nat) : Nat := c.values.getD 0 + i * c.stride.toNat % 2 ^ 64

/-- `cxpr_bulk_view`. Arrays of columns, the parameters and the states are there or `NULL`. -/
structure View where
  inputs : Option (Nat → Column)
  inputCount : UInt64
  params : Option Nat
  paramCount : UInt64
  outputs : Option (Nat → Column)
  outputCount : UInt64
  states : Bool
  stateStride : UInt64
  elementCount : UInt64

namespace View

def count (v : View) : Nat := v.elementCount.toNat

def stride (v : View) : Nat := v.stateStride.toNat

def input (v : View) (j : Nat) : Column := (v.inputs.getD fun _ => ⟨none, 0⟩) j

def output (v : View) (j : Nat) : Column := (v.outputs.getD fun _ => ⟨none, 0⟩) j

def stateOffset (v : View) (i : Nat) : Nat := i * v.stride % 2 ^ 64

end View

/-- The last element of a column would be at an index that does not fit `size_t`. -/
def tooLong (stride : UInt64) (elementCount : UInt64) : Bool :=
  0 < elementCount && 0 < stride && sizeMax / stride.toNat < elementCount.toNat - 1

def inputStatus (elementCount : UInt64) (c : Column) : Option BulkStatus :=
  if c.values.isNone then some .missingBuffer
  else if tooLong c.stride elementCount then some .invalidArgument
  else none

def outputStatus (elementCount : UInt64) (c : Column) : Option BulkStatus :=
  if c.values.isNone || (1 < elementCount && c.stride == 0) then some .missingBuffer
  else if tooLong c.stride elementCount then some .invalidArgument
  else none

def bulkValidate (descriptor : Option Descriptor) (view : Option View) : BulkStatus :=
  match view, descriptor with
  | none, _ => .invalidArgument
  | some _, none => .invalidDescriptor
  | some v, some d =>
    if !d.abiValid then .invalidDescriptor
    else if v.inputCount.toNat ≠ d.inputs.length ∨ v.outputCount.toNat ≠ d.outputs.length ∨
        v.paramCount.toNat ≠ d.params.length then .schemaMismatch
    else if v.inputCount ≠ 0 ∧ v.inputs.isNone ∨ v.outputCount ≠ 0 ∧ v.outputs.isNone ∨
        v.paramCount ≠ 0 ∧ v.params.isNone then .missingBuffer
    else
      match (List.range v.inputCount.toNat).findSome? fun j => inputStatus v.elementCount (v.input j) with
      | some status => status
      | none =>
        match (List.range v.outputCount.toNat).findSome? fun j => outputStatus v.elementCount (v.output j) with
        | some status => status
        | none =>
          if d.size ≠ 0 ∧ v.states = false then .missingBuffer
          else if d.size ≠ 0 ∧ v.stride < d.size then .stateStrideTooSmall
          else if d.size ≠ 0 ∧ tooLong v.stateStride v.elementCount then .invalidArgument
          else .ok

structure BulkMemory (V : Type) where
  values : Nat → V
  states : Nat → UInt8

/-- The `tick` of a descriptor: from the bytes of a state, the inputs and the parameters to the bytes behind it and all the
    outputs. -/
abbrev Tick (V : Type) := List UInt8 → List V → List V → (Nat → UInt8) × (Nat → V)

def elementTick (d : Descriptor) (tick : Tick V) (v : View) (m : BulkMemory V) (i : Nat) : (Nat → UInt8) × (Nat → V) :=
  tick (if v.states then (List.range d.size).map fun k => m.states (v.stateOffset i + k) else [])
    ((List.range v.inputCount.toNat).map fun j => m.values ((v.input j).cell i))
    ((List.range v.paramCount.toNat).map fun j => m.values (v.params.getD 0 + j))

def elementWrite (d : Descriptor) (v : View) (i : Nat) (result : (Nat → UInt8) × (Nat → V)) (m : BulkMemory V) : BulkMemory V where
  values := store ((List.range v.outputCount.toNat).map fun j => ((v.output j).cell i, result.2 j)) m.values
  states := if v.states then memcpy (v.stateOffset i) d.size result.1 m.states else m.states

/-- The loop body of `cxpr_bulk_run_range`. -/
def runElement (d : Descriptor) (tick : Tick V) (v : View) (m : BulkMemory V) (i : Nat) : BulkMemory V :=
  elementWrite d v i (elementTick d tick v m i) m

def runRange (descriptor : Option Descriptor) (tick : Tick V) (view : Option View) (first count : UInt64) (m : BulkMemory V) :
    BulkStatus × BulkMemory V :=
  match bulkValidate descriptor view, descriptor, view with
  | .ok, some d, some v =>
    if v.elementCount < first ∨ v.elementCount - first < count then (.rangeOutOfBounds, m)
    else (.ok, (List.range' first.toNat count.toNat).foldl (runElement d tick v) m)
  | status, _, _ => (status, m)

def bulkRun (descriptor : Option Descriptor) (tick : Tick V) (view : Option View) (m : BulkMemory V) :
    BulkStatus × BulkMemory V :=
  runRange descriptor tick view 0 (view.elim 0 (·.elementCount)) m

/-- Calls of `cxpr_bulk_run_range` one after the other: what they return, and the memory behind them. -/
def runRanges (descriptor : Option Descriptor) (tick : Tick V) (view : Option View) :
    List (UInt64 × UInt64) → BulkMemory V → List BulkStatus × BulkMemory V
  | [], m => ([], m)
  | (first, count) :: ranges, m =>
    let (status, m) := runRange descriptor tick view first count m
    let (statuses, m) := runRanges descriptor tick view ranges m
    (status :: statuses, m)

/-- An index that fits `size_t`, for every element. -/
def Fits (stride count : Nat) : Prop := ∀ i < count, i * stride < 2 ^ 64

theorem fits_iff {stride count : Nat} : Fits stride count ↔ (count - 1) * stride < 2 ^ 64 := by
  constructor
  · intro h
    cases count with
    | zero => simp
    | succ n => exact h n (Nat.lt_succ_self n)
  · intro h i hi
    exact Nat.lt_of_le_of_lt (Nat.mul_le_mul_right stride (by omega)) h

theorem fits_of_not_tooLong {stride elementCount : UInt64} (h : tooLong stride elementCount = false) :
    Fits stride.toNat elementCount.toNat := by
  rw [fits_iff]
  have hmax : sizeMax < 2 ^ 64 := by decide
  rcases Nat.eq_zero_or_pos stride.toNat with hzero | hpos
  · simp [hzero]
  rcases Nat.eq_zero_or_pos elementCount.toNat with hnone | hsome
  · simp [hnone]
  have hle : elementCount.toNat - 1 ≤ sizeMax / stride.toNat := by
    simp only [tooLong, Bool.and_eq_false_iff, decide_eq_false_iff_not, UInt64.lt_iff_toNat_lt, UInt64.toNat_zero] at h
    omega
  exact Nat.lt_of_le_of_lt ((Nat.le_div_iff_mul_le hpos).mp hle) hmax

structure View.Valid (v : View) (d : Descriptor) : Prop where
  inputs : ∀ j < v.inputCount.toNat, Fits (v.input j).stride.toNat v.count
  outputs : ∀ j < v.outputCount.toNat, Fits (v.output j).stride.toNat v.count ∧ (1 < v.count → 0 < (v.output j).stride.toNat)
  states : d.size ≠ 0 → d.size ≤ v.stride ∧ Fits v.stride v.count

theorem inputStatus_eq_none {n : UInt64} {c : Column} (h : inputStatus n c = none) : Fits c.stride.toNat n.toNat := by
  unfold inputStatus at h
  split at h
  · cases h
  · split at h
    · cases h
    · rename_i hlong
      exact fits_of_not_tooLong (by simpa using hlong)

theorem outputStatus_eq_none {n : UInt64} {c : Column} (h : outputStatus n c = none) :
    Fits c.stride.toNat n.toNat ∧ (1 < n.toNat → 0 < c.stride.toNat) := by
  unfold outputStatus at h
  split at h
  · cases h
  · rename_i hstride
    split at h
    · cases h
    · rename_i hlong
      refine ⟨fits_of_not_tooLong (by simpa using hlong), fun hn => Nat.pos_of_ne_zero fun hzero => ?_⟩
      have hn' : (1 : UInt64) < n := UInt64.lt_iff_toNat_lt.mpr hn
      have hzero' : c.stride = 0 := UInt64.toNat_inj.mp hzero
      simp [hn', hzero'] at hstride

theorem inputStatus_ne_ok (n : UInt64) (c : Column) : inputStatus n c ≠ some .ok := by
  unfold inputStatus
  split
  · nofun
  · split <;> nofun

theorem outputStatus_ne_ok (n : UInt64) (c : Column) : outputStatus n c ≠ some .ok := by
  unfold outputStatus
  split
  · nofun
  · split <;> nofun

theorem View.valid_of_bulkValidate {d : Descriptor} {v : View} (h : bulkValidate (some d) (some v) = .ok) : v.Valid d := by
  unfold bulkValidate at h
  dsimp only at h
  split at h
  · cases h
  split at h
  · cases h
  split at h
  · cases h
  split at h
  · rename_i status hstatus
    obtain ⟨j, -, hj⟩ := List.exists_of_findSome?_eq_some hstatus
    rw [h] at hj
    exact absurd hj (inputStatus_ne_ok _ _)
  rename_i hinputs
  split at h
  · rename_i status hstatus
    obtain ⟨j, -, hj⟩ := List.exists_of_findSome?_eq_some hstatus
    rw [h] at hj
    exact absurd hj (outputStatus_ne_ok _ _)
  rename_i houtputs
  rw [List.findSome?_eq_none_iff] at hinputs houtputs
  split at h
  · cases h
  split at h
  · cases h
  rename_i hstride
  split at h
  · cases h
  rename_i hlong
  exact
    { inputs := fun j hj => inputStatus_eq_none (hinputs j (List.mem_range.mpr hj))
      outputs := fun j hj => outputStatus_eq_none (houtputs j (List.mem_range.mpr hj))
      states := fun hsize => ⟨Nat.not_lt.mp fun hlt => hstride ⟨hsize, hlt⟩,
        fits_of_not_tooLong (by simpa using fun htoo => hlong ⟨hsize, htoo⟩)⟩ }

/-- The buffers of a view do not overlap: no output cell is a cell of another output, of an input or of the parameters. The
    block of the states is one of its own. -/
structure View.Separate (v : View) : Prop where
  outputs : ∀ j < v.outputCount.toNat, ∀ k < v.outputCount.toNat, j ≠ k → ∀ i < v.count, ∀ i' < v.count,
    (v.output j).cell i ≠ (v.output k).cell i'
  inputs : ∀ j < v.inputCount.toNat, ∀ k < v.outputCount.toNat, ∀ i < v.count, ∀ i' < v.count,
    (v.input j).cell i ≠ (v.output k).cell i'
  params : ∀ j < v.paramCount.toNat, ∀ k < v.outputCount.toNat, ∀ i < v.count, v.params.getD 0 + j ≠ (v.output k).cell i

section
variable {d : Descriptor} {tick : Tick V} {v : View} {m : BulkMemory V} {i i' : Nat}

theorem View.Valid.stateOffset_eq (h : v.Valid d) (hsize : d.size ≠ 0) (hi : i < v.count) : v.stateOffset i = i * v.stride :=
  Nat.mod_eq_of_lt ((h.states hsize).2 i hi)

theorem View.Valid.states_apart (h : v.Valid d) (hsize : d.size ≠ 0) (hi : i < v.count) (hi' : i' < v.count) (hne : i ≠ i') :
    v.stateOffset i + d.size ≤ v.stateOffset i' ∨ v.stateOffset i' + d.size ≤ v.stateOffset i := by
  have hbelow : ∀ {a b : Nat}, a < b → a * v.stride + d.size ≤ b * v.stride := fun {a b} hab =>
    calc a * v.stride + d.size ≤ a * v.stride + v.stride := Nat.add_le_add_left (h.states hsize).1 _
      _ = (a + 1) * v.stride := (Nat.succ_mul a v.stride).symm
      _ ≤ b * v.stride := Nat.mul_le_mul_right v.stride hab
  rw [h.stateOffset_eq hsize hi, h.stateOffset_eq hsize hi']
  rcases Nat.lt_or_gt_of_ne hne with hlt | hgt
  · exact .inl (hbelow hlt)
  · exact .inr (hbelow hgt)

theorem View.Valid.output_cell_ne (h : v.Valid d) {j : Nat} (hj : j < v.outputCount.toNat) (hi : i < v.count)
    (hi' : i' < v.count) (hne : i ≠ i') : (v.output j).cell i ≠ (v.output j).cell i' := by
  obtain ⟨hfits, hpos⟩ := h.outputs j hj
  intro hcell
  rw [Column.cell, Column.cell, Nat.mod_eq_of_lt (hfits i hi), Nat.mod_eq_of_lt (hfits i' hi')] at hcell
  exact hne (Nat.eq_of_mul_eq_mul_right (hpos (by omega)) (Nat.add_left_cancel hcell))

theorem View.Separate.cells_ne (hs : v.Separate) (h : v.Valid d) (hi : i < v.count) (hi' : i' < v.count) (hne : i ≠ i')
    {j k : Nat} (hj : j < v.outputCount.toNat) (hk : k < v.outputCount.toNat) :
    (v.output j).cell i ≠ (v.output k).cell i' := by
  by_cases hjk : j = k
  · subst hjk
    exact h.output_cell_ne hj hi hi' hne
  · exact hs.outputs j hj k hk hjk i hi i' hi'

theorem elementTick_write (h : v.Valid d) (hs : v.Separate) (hi : i < v.count) (hi' : i' < v.count) (hne : i ≠ i')
    (result : (Nat → UInt8) × (Nat → V)) :
    elementTick d tick v (elementWrite d v i' result m) i = elementTick d tick v m i := by
  have hstates : ∀ k ∈ List.range d.size,
      (elementWrite d v i' result m).states (v.stateOffset i + k) = m.states (v.stateOffset i + k) := by
    intro k hk
    have hk := List.mem_range.mp hk
    unfold elementWrite
    dsimp only
    split
    · refine memcpy_outside ?_
      have := h.states_apart (by omega) hi hi' hne
      omega
    · rfl
  have hinputs : ∀ j ∈ List.range v.inputCount.toNat,
      (elementWrite d v i' result m).values ((v.input j).cell i) = m.values ((v.input j).cell i) := by
    refine fun j hj => store_outside fun cell hcell => ?_
    obtain ⟨k, hk, rfl⟩ := List.mem_map.mp hcell
    exact (hs.inputs j (List.mem_range.mp hj) k (List.mem_range.mp hk) i hi i' hi').symm
  have hparams : ∀ j ∈ List.range v.paramCount.toNat,
      (elementWrite d v i' result m).values (v.params.getD 0 + j) = m.values (v.params.getD 0 + j) := by
    refine fun j hj => store_outside fun cell hcell => ?_
    obtain ⟨k, hk, rfl⟩ := List.mem_map.mp hcell
    exact (hs.params j (List.mem_range.mp hj) k (List.mem_range.mp hk) i' hi').symm
  unfold elementTick
  rw [List.map_congr_left hstates, List.map_congr_left hinputs, List.map_congr_left hparams]

theorem elementWrite_comm (h : v.Valid d) (hs : v.Separate) (hi : i < v.count) (hi' : i' < v.count) (hne : i ≠ i')
    (result result' : (Nat → UInt8) × (Nat → V)) :
    elementWrite d v i result (elementWrite d v i' result' m) = elementWrite d v i' result' (elementWrite d v i result m) := by
  unfold elementWrite
  dsimp only
  congr 1
  · refine store_comm fun cell hcell cell' hcell' => ?_
    obtain ⟨j, hj, rfl⟩ := List.mem_map.mp hcell
    obtain ⟨k, hk, rfl⟩ := List.mem_map.mp hcell'
    exact hs.cells_ne h hi hi' hne (List.mem_range.mp hj) (List.mem_range.mp hk)
  · cases v.states with
    | false => rfl
    | true =>
      rcases Nat.eq_zero_or_pos d.size with hzero | hpos
      · have hnothing : ∀ (offset : Nat) (source states : Nat → UInt8), memcpy offset d.size source states = states := by
          intro offset source states
          funext p
          rw [hzero]
          exact memcpy_outside (by omega)
        rw [hnothing, hnothing, hnothing, hnothing]
      · exact memcpy_comm (h.states_apart (by omega) hi hi' hne)

theorem runElement_comm (h : v.Valid d) (hs : v.Separate) (hi : i < v.count) (hi' : i' < v.count) :
    runElement d tick v (runElement d tick v m i) i' = runElement d tick v (runElement d tick v m i') i := by
  by_cases hne : i = i'
  · rw [hne]
  · unfold runElement
    rw [elementTick_write h hs hi' hi (Ne.symm hne), elementTick_write h hs hi hi' hne,
      elementWrite_comm h hs hi' hi (Ne.symm hne)]

end

def rangeElements (range : UInt64 × UInt64) : List Nat := List.range' range.1.toNat range.2.toNat

structure View.Partition (v : View) (ranges : List (UInt64 × UInt64)) : Prop where
  inside : ∀ range ∈ ranges, range.1.toNat + range.2.toNat ≤ v.count
  elements : (ranges.flatMap rangeElements).Perm (List.range v.count)

def View.RunsByParts (v : View) (d : Descriptor) (tick : Tick V) : Prop :=
  ∀ ranges, v.Partition ranges → ∀ m : BulkMemory V,
    (∀ status ∈ (runRanges (some d) tick (some v) ranges m).1, status = .ok) ∧ (bulkRun (some d) tick (some v) m).1 = .ok ∧
      (runRanges (some d) tick (some v) ranges m).2 = (bulkRun (some d) tick (some v) m).2

/-- Every index that is computed fits `size_t`. -/
structure View.IndicesFit (v : View) : Prop where
  states : v.states = true → Fits v.stride v.count
  inputs : ∀ j < v.inputCount.toNat, Fits (v.input j).stride.toNat v.count
  outputs : ∀ j < v.outputCount.toNat, Fits (v.output j).stride.toNat v.count

section
variable {d : Descriptor} {tick : Tick V} {v : View}

theorem runRange_eq (hvalid : bulkValidate (some d) (some v) = .ok) {first count : UInt64}
    (hinside : first.toNat + count.toNat ≤ v.count) (m : BulkMemory V) :
    runRange (some d) tick (some v) first count m =
      (.ok, (List.range' first.toNat count.toNat).foldl (runElement d tick v) m) := by
  have hcount : v.count = v.elementCount.toNat := rfl
  have hfirst : first ≤ v.elementCount := UInt64.le_iff_toNat_le.mpr (by omega)
  have hbounds : ¬ (v.elementCount < first ∨ v.elementCount - first < count) := by
    rintro (hlt | hlt)
    · have := UInt64.lt_iff_toNat_lt.mp hlt
      omega
    · have := UInt64.lt_iff_toNat_lt.mp hlt
      rw [UInt64.toNat_sub_of_le _ _ hfirst] at this
      omega
  unfold runRange
  rw [hvalid]
  dsimp only
  rw [if_neg hbounds]

theorem bulkRun_eq (hvalid : bulkValidate (some d) (some v) = .ok) (m : BulkMemory V) :
    bulkRun (some d) tick (some v) m = (.ok, (List.range v.count).foldl (runElement d tick v) m) := by
  have hzero : (0 : UInt64).toNat + v.elementCount.toNat ≤ v.count := by simp [View.count]
  show runRange (some d) tick (some v) 0 v.elementCount m = _
  rw [runRange_eq hvalid hzero, UInt64.toNat_zero, ← List.range_eq_range']
  rfl

theorem runRanges_eq (hvalid : bulkValidate (some d) (some v) = .ok) {ranges : List (UInt64 × UInt64)}
    (hinside : ∀ range ∈ ranges, range.1.toNat + range.2.toNat ≤ v.count) (m : BulkMemory V) :
    (∀ status ∈ (runRanges (some d) tick (some v) ranges m).1, status = .ok) ∧
      (runRanges (some d) tick (some v) ranges m).2 = (ranges.flatMap rangeElements).foldl (runElement d tick v) m := by
  induction ranges generalizing m with
  | nil => exact ⟨fun _ h => (List.not_mem_nil h).elim, rfl⟩
  | cons range ranges ih =>
    obtain ⟨hrange, hranges⟩ := List.forall_mem_cons.mp hinside
    obtain ⟨first, count⟩ := range
    rw [runRanges, runRange_eq hvalid hrange]
    obtain ⟨hstatuses, hmemory⟩ := ih hranges ((List.range' first.toNat count.toNat).foldl (runElement d tick v) m)
    refine ⟨List.forall_mem_cons.mpr ⟨rfl, hstatuses⟩, ?_⟩
    rw [List.flatMap_cons, List.foldl_append]
    exact hmemory

theorem runsByParts (hvalid : bulkValidate (some d) (some v) = .ok) (hs : v.Separate) : v.RunsByParts d tick := by
  intro ranges hpartition m
  obtain ⟨hstatuses, hmemory⟩ := @runRanges_eq V d tick v hvalid ranges hpartition.inside m
  refine ⟨hstatuses, by rw [bulkRun_eq hvalid], ?_⟩
  rw [hmemory, bulkRun_eq hvalid]
  refine hpartition.elements.foldl_eq' (fun i hi i' hi' m => ?_) m
  have hcount : ∀ {a}, a ∈ ranges.flatMap rangeElements → a < v.count := fun ha =>
    List.mem_range.mp (hpartition.elements.mem_iff.mp ha)
  exact runElement_comm (View.valid_of_bulkValidate hvalid) hs (hcount hi) (hcount hi')

/-- The ranges of a valid view can be run in any order, and the indices fit, exactly when the model has a state, there is no
    block of states or its last offset fits. -/
theorem bulk_partition_iff (hvalid : bulkValidate (some d) (some v) = .ok) (hs : v.Separate) :
    (∀ tick : Tick V, v.RunsByParts d tick) ∧ v.IndicesFit ↔
      d.size ≠ 0 ∨ v.states = false ∨ (v.count - 1) * v.stride < 2 ^ 64 := by
  have h := View.valid_of_bulkValidate hvalid
  constructor
  · rintro ⟨-, hfit⟩
    cases hstates : v.states with
    | false => exact .inr (.inl rfl)
    | true => exact .inr (.inr (fits_iff.mp (hfit.states hstates)))
  · intro hcond
    refine ⟨fun tick => runsByParts hvalid hs, fun hstates => ?_, h.inputs, fun j hj => (h.outputs j hj).1⟩
    rcases hcond with hsize | hnone | hlast
    · exact (h.states hsize).2
    · rw [hstates] at hnone
      cases hnone
    · exact fits_iff.mpr hlast

end

def adder : Descriptor := ⟨some "adder", true, some 1, [(some "amount", .number)], [(some "total", .number)], [], 5⟩

def adderView : View := ⟨some fun _ => ⟨some 0, 0⟩, 1, none, 0, some fun _ => ⟨some 1, 1⟩, 1, true, 1, 3⟩

theorem adderView_separate : adderView.Separate where
  outputs j hj k hk hjk := absurd (show j = k by have : adderView.outputCount.toNat = 1 := rfl; omega) hjk
  inputs _ _ _ _ _ _ i' _ := by
    show 0 + _ * 0 % 2 ^ 64 ≠ 1 + i' * 1 % 2 ^ 64
    omega
  params j hj := absurd hj (Nat.not_lt_zero j)

theorem adder_partition : (∀ tick : Tick UInt8, adderView.RunsByParts adder tick) ∧ adderView.IndicesFit :=
  (bulk_partition_iff (by decide) adderView_separate).mpr (.inl (by decide))

def stateless : Descriptor := ⟨some "stateless", true, some 0, [], [], [], 5⟩

def statelessView : View := ⟨none, 0, none, 0, none, 0, true, 2 ^ 63, 3⟩

theorem stateless_wraps : bulkValidate (some stateless) (some statelessView) = .ok ∧ statelessView.Separate ∧
    2 < statelessView.count ∧ statelessView.stateOffset 2 = 0 ∧ ¬ statelessView.IndicesFit := by
  refine ⟨by decide, ⟨fun j hj => absurd hj (Nat.not_lt_zero j), fun j hj => absurd hj (Nat.not_lt_zero j),
    fun j hj => absurd hj (Nat.not_lt_zero j)⟩, by decide, by decide +kernel, fun h => ?_⟩
  exact absurd (h.states rfl 2 (by decide)) (by decide +kernel)

end Cxpr.Bulk
