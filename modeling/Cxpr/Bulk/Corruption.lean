import Cxpr.Bulk.Snapshot

/-! Snapshots of which one byte is changed. The checksum tells two payloads apart that differ in one byte, as each of its
    rounds can be undone, and every field of the header is compared but one: the reserved word behind the ABI version. -/

namespace Cxpr.Bulk

theorem mul_fnvPrime_injective : Function.Injective fun h : UInt64 => h * 1099511628211 := by
  have hinverse : (1099511628211 : UInt64) * 14886173955864302971 = 1 := by decide
  refine Function.LeftInverse.injective (g := fun h => h * 14886173955864302971) fun h => ?_
  show h * 1099511628211 * 14886173955864302971 = h
  rw [UInt64.mul_assoc, hinverse, UInt64.mul_one]

theorem hashBytes_cons (hash : UInt64) (b : UInt8) (bytes : List UInt8) :
    hashBytes hash (b :: bytes) = hashBytes ((hash ^^^ b.toUInt64) * 1099511628211) bytes := rfl

theorem hashBytes_injective (bytes : List UInt8) : Function.Injective (hashBytes · bytes) := by
  induction bytes with
  | nil => exact fun _ _ h => h
  | cons b bytes ih =>
    intro hash hash' h
    have hround := mul_fnvPrime_injective (ih h)
    exact UInt64.xor_right_inj b.toUInt64 |>.mp (by simpa [UInt64.xor_comm] using hround)

theorem hashBytes_set_ne {bytes : List UInt8} {i : Nat} {b : UInt8} (hi : i < bytes.length) (hb : bytes[i]? ≠ some b)
    (hash : UInt64) : hashBytes hash (bytes.set i b) ≠ hashBytes hash bytes := by
  induction bytes generalizing hash i with
  | nil => cases hi
  | cons c bytes ih =>
    cases i with
    | zero =>
      rw [List.set_cons_zero, hashBytes_cons, hashBytes_cons]
      intro h
      have hround := mul_fnvPrime_injective (hashBytes_injective bytes h)
      have hbyte : b.toUInt64 = c.toUInt64 := (UInt64.xor_right_inj hash).mp hround
      exact hb (by rw [UInt8.toUInt64_inj.mp hbyte]; rfl)
    | succ i =>
      rw [List.set_cons_succ, hashBytes_cons, hashBytes_cons]
      exact ih (Nat.lt_of_succ_lt_succ hi) hb _

section
variable {d : Descriptor} {layoutId : UInt64} {data : List UInt8} {w : StateView}

theorem accepted_of_snapshotRestore (h : (snapshotRestore (some d) layoutId (some data) w).1 = .ok) :
    Accepted d layoutId data w := by
  unfold snapshotRestore snapshotCheck at h
  dsimp only at h
  by_cases hlayout : layoutId = 0
  · rw [if_pos hlayout] at h
    cases h
  rw [if_neg hlayout] at h
  by_cases hvalid : (!d.abiValid) = true
  · rw [if_pos hvalid] at h
    cases h
  rw [if_neg hvalid] at h
  by_cases hformat : data.length < headerSize ∨ data.take 8 ≠ magic ∨ LittleEndian.field data 12 4 ≠ headerSize
  · rw [if_pos hformat] at h
    cases h
  rw [if_neg hformat] at h
  by_cases hversion : LittleEndian.field data 8 4 ≠ formatVersion
  · rw [if_pos hversion] at h
    cases h
  rw [if_neg hversion] at h
  by_cases hmodel : LittleEndian.field data 16 4 ≠ d.abiVersion.toNat ∨
      LittleEndian.field data 24 8 ≠ (d.layoutHash layoutId).toNat
  · rw [if_pos hmodel] at h
    cases h
  rw [if_neg hmodel] at h
  by_cases hsize : LittleEndian.field data 32 8 ≠ d.size
  · rw [if_pos hsize] at h
    cases h
  rw [if_neg hsize] at h
  by_cases hcount : LittleEndian.field data 40 8 ≠ w.count
  · rw [if_pos hcount] at h
    cases h
  rw [if_neg hcount] at h
  by_cases hstates : d.size ≠ 0 ∧ (w.states = none ∨ w.stride < d.size)
  · rw [if_pos hstates] at h
    cases h
  rw [if_neg hstates] at h
  by_cases hroom : d.size ≠ 0 ∧ sizeMax / d.size < w.count
  · rw [if_pos hroom] at h
    cases h
  rw [if_neg hroom] at h
  by_cases hlength : sizeMax - headerSize < d.size * w.count ∨ data.length ≠ headerSize + d.size * w.count
  · rw [if_pos hlength] at h
    cases h
  rw [if_neg hlength] at h
  by_cases hchecksum : LittleEndian.field data 48 8 ≠ (payloadChecksum (data.drop headerSize)).toNat
  · rw [if_pos hchecksum] at h
    cases h
  push Not at hformat hversion hmodel hsize hcount hstates hroom hlength hchecksum
  exact ⟨hlayout, by simpa using hvalid, hformat.2.1, hversion, hformat.2.2, hmodel.1, hmodel.2, hsize, hcount,
    hstates, hroom, hlength.1, hlength.2, hchecksum⟩

end

/-! ### One byte -/

section
variable {d : Descriptor} {layoutId : UInt64} {data : List UInt8} {v w : StateView} {i : Nat} {b : UInt8}

/-- Bytes that are not of the reserved word are checked, but for the element count of a model without a state. -/
def checkedByte (stateSize i : Nat) : Prop := (i < 20 ∨ 24 ≤ i) ∧ (stateSize = 0 → i < 40 ∨ 48 ≤ i)

theorem not_inside {offset n x : Nat} (hi : i < data.length) (hb : data[i]? ≠ some b)
    (h : LittleEndian.field data offset n = x) (h' : LittleEndian.field (data.set i b) offset n = x) :
    i < offset ∨ offset + n ≤ i := by
  by_contra hinside
  push Not at hinside
  exact LittleEndian.field_set_inside hi hb hinside.1 hinside.2 (h'.trans h.symm)

theorem not_checkedByte_of_accepted (h : Accepted d layoutId data v) (hi : i < data.length) (hb : data[i]? ≠ some b)
    (h' : Accepted d layoutId (data.set i b) w) : ¬ checkedByte d.size i := by
  rintro ⟨hreserved, hstateless⟩
  have hversion := not_inside hi hb h.version h'.version
  have hheader := not_inside hi hb h.headerSize h'.headerSize
  have habi := not_inside hi hb h.abiVersion h'.abiVersion
  have hlayout := not_inside hi hb h.layoutHash h'.layoutHash
  have hsize := not_inside hi hb h.stateSize h'.stateSize
  have hmagic : 8 ≤ i := by
    by_contra hlt
    have hcell := congrArg (·[i]?) (h'.magic.trans h.magic.symm)
    simp only [List.getElem?_take_of_lt (Nat.not_le.mp hlt), List.getElem?_set_self hi] at hcell
    exact hb hcell.symm
  have hcount : i < 40 ∨ 48 ≤ i := by
    by_cases hzero : d.size = 0
    · exact hstateless hzero
    · -- the length of the snapshot fixes the number of elements
      have hlength := h.length.symm.trans ((List.length_set ..).symm.trans h'.length)
      have hcounts : v.count = w.count := Nat.eq_of_mul_eq_mul_left (Nat.pos_of_ne_zero hzero) (Nat.add_left_cancel hlength)
      exact not_inside hi hb h.elementCount (h'.elementCount.trans hcounts.symm)
  rcases Nat.lt_or_ge i headerSize with hhead | hpayload
  · have hdrop : (data.set i b).drop headerSize = data.drop headerSize := List.drop_set_of_lt hhead
    have hsum := h'.checksum
    rw [hdrop] at hsum
    have hchecksum := not_inside hi hb h.checksum hsum
    have : headerSize = 56 := rfl
    omega
  · have hdrop : (data.set i b).drop headerSize = (data.drop headerSize).set (i - headerSize) b := by
      rw [List.drop_set, if_neg (Nat.not_lt.mpr hpayload)]
    have hsum := h'.checksum
    rw [hdrop, LittleEndian.field_set_outside (.inr hpayload), h.checksum] at hsum
    have hinside : headerSize + (i - headerSize) = i := Nat.add_sub_of_le hpayload
    have hlength : i - headerSize < (data.drop headerSize).length := by
      rw [List.length_drop]
      omega
    have hother : (data.drop headerSize)[i - headerSize]? ≠ some b := by
      rwa [List.getElem?_drop, hinside]
    exact hashBytes_set_ne hlength hother offsetBasis (UInt64.toNat_inj.mp hsum).symm

theorem Accepted.set_reserved (h : Accepted d layoutId data w) (hlo : 20 ≤ i) (hhi : i < 24) :
    Accepted d layoutId (data.set i b) w where
  identified := h.identified
  abiValid := h.abiValid
  magic := by rw [List.take_set_of_le (by omega), h.magic]
  version := by rw [LittleEndian.field_set_outside (.inr (by omega)), h.version]
  headerSize := by rw [LittleEndian.field_set_outside (.inr (by omega)), h.headerSize]
  abiVersion := by rw [LittleEndian.field_set_outside (.inr (by omega)), h.abiVersion]
  layoutHash := by rw [LittleEndian.field_set_outside (.inl hhi), h.layoutHash]
  stateSize := by rw [LittleEndian.field_set_outside (.inl (by omega)), h.stateSize]
  elementCount := by rw [LittleEndian.field_set_outside (.inl (by omega)), h.elementCount]
  states := h.states
  counts := h.counts
  total := h.total
  length := by rw [List.length_set, h.length]
  checksum := by
    rw [LittleEndian.field_set_outside (.inl (by omega)), List.drop_set_of_lt (Nat.lt_trans hhi (by decide)), h.checksum]

theorem Accepted.set_elementCount (h : Accepted d layoutId data v) (hzero : d.size = 0) (hlo : 40 ≤ i) (hhi : i < 48) :
    Accepted d layoutId (data.set i b) ⟨none, 0, UInt64.ofNat (LittleEndian.field (data.set i b) 40 8)⟩ where
  identified := h.identified
  abiValid := h.abiValid
  magic := by rw [List.take_set_of_le (by omega), h.magic]
  version := by rw [LittleEndian.field_set_outside (.inr (by omega)), h.version]
  headerSize := by rw [LittleEndian.field_set_outside (.inr (by omega)), h.headerSize]
  abiVersion := by rw [LittleEndian.field_set_outside (.inr (by omega)), h.abiVersion]
  layoutHash := by rw [LittleEndian.field_set_outside (.inr (by omega)), h.layoutHash]
  stateSize := by rw [LittleEndian.field_set_outside (.inr (by omega)), h.stateSize]
  elementCount := (UInt64.toNat_ofNat_of_lt' (LittleEndian.field_lt _ 40 8)).symm
  states hsize := absurd hzero hsize
  counts hsize := absurd hzero hsize
  total := by rw [hzero, Nat.zero_mul]; exact Nat.zero_le _
  length := by rw [List.length_set, h.length, hzero, Nat.zero_mul, Nat.zero_mul]
  checksum := by
    rw [LittleEndian.field_set_outside (.inl hhi), List.drop_set_of_lt (Nat.lt_trans hhi (by decide)), h.checksum]

theorem snapshotRestore_ne_ok_iff : (snapshotRestore (some d) layoutId (some data) w).1 ≠ .ok ↔ ¬ Accepted d layoutId data w := by
  constructor
  · intro h haccepted
    rw [snapshotRestore, haccepted.snapshotCheck_eq] at h
    exact h rfl
  · intro h hok
    exact h (accepted_of_snapshotRestore hok)

theorem exists_accepted {malloc : Nat → Bool} (h : snapshotCreate malloc (some d) layoutId v = .ok data) :
    ∃ w, Accepted d layoutId data w := by
  obtain ⟨hlayout, d', payload, hd, hvalid, htotal, hcounts, hpayload, -, rfl⟩ := snapshotCreate_eq_ok h
  obtain rfl := Option.some.inj hd
  let w : StateView := ⟨some fun _ => 0, d.stateSize.getD 0, v.elementCount⟩
  exact ⟨w, accepted_created (w := w) hlayout hvalid htotal hcounts hpayload fun _ => ⟨nofun, Nat.le_refl _⟩⟩

/-- A snapshot with one byte changed is rejected by every view exactly when the byte is checked. -/
theorem corruption_detected_iff {malloc : Nat → Bool} (hcreate : snapshotCreate malloc (some d) layoutId v = .ok data)
    (hi : i < data.length) (hb : data[i]? ≠ some b) :
    (∀ w, (snapshotRestore (some d) layoutId (some (data.set i b)) w).1 ≠ .ok ∧
      (snapshotRestore (some d) layoutId (some (data.set i b)) w).2 = w) ↔ checkedByte d.size i := by
  obtain ⟨w₀, hw₀⟩ := exists_accepted hcreate
  constructor
  · intro h
    have hrejected : ∀ w, ¬ Accepted d layoutId (data.set i b) w := fun w => snapshotRestore_ne_ok_iff.mp (h w).1
    refine ⟨?_, fun hzero => ?_⟩
    · by_contra hreserved
      push Not at hreserved
      exact hrejected w₀ (hw₀.set_reserved hreserved.1 hreserved.2)
    · by_contra hcount
      push Not at hcount
      exact hrejected _ (hw₀.set_elementCount hzero hcount.1 hcount.2)
  · intro hchecked w
    have hne : (snapshotRestore (some d) layoutId (some (data.set i b)) w).1 ≠ .ok :=
      snapshotRestore_ne_ok_iff.mpr fun h' => not_checkedByte_of_accepted hw₀ hi hb h' hchecked
    exact ⟨hne, snapshotRestore_failed hne⟩

end

def counter : Descriptor := ⟨some "counter", true, some 3, [(some "amount", .number)], [(some "total", .number)], [], 5⟩

def counterView : StateView := ⟨some fun p => UInt8.ofNat p, 3, 1⟩

def counterSnapshot : List UInt8 := header counter 9 3 1 [0, 1, 2] ++ [0, 1, 2]

theorem snapshotCreate_counter : snapshotCreate (fun _ => true) (some counter) 9 counterView = .ok counterSnapshot := by
  have hvalid : counter.abiValid = true := by decide
  unfold snapshotCreate
  dsimp only
  rw [if_neg (by decide), hvalid, if_neg (by decide), if_neg (fun h => h.2.elim nofun (by decide)), if_neg (by decide),
    if_neg (by decide), if_neg (by decide)]
  rfl

theorem counter_corruption_detected :
    (snapshotRestore (some counter) 9 (some (counterSnapshot.set 58 7)) counterView).1 ≠ .ok ∧
      (snapshotRestore (some counter) 9 (some (counterSnapshot.set 58 7)) counterView).2 = counterView := by
  refine (corruption_detected_iff snapshotCreate_counter (by simp [counterSnapshot, length_header, headerSize]) ?_).mpr
    ⟨.inr (by decide), fun _ => .inr (by decide)⟩ counterView
  rw [counterSnapshot, List.getElem?_append_right (by rw [length_header]; decide), length_header]
  decide

/-- The reserved word of the header is not: a snapshot of the counter with another byte there is restored. -/
theorem reserved_byte_accepted :
    snapshotCreate (fun _ => true) (some counter) 9 counterView = .ok counterSnapshot ∧ counterSnapshot[20]? ≠ some 1 ∧
      (snapshotRestore (some counter) 9 (some (counterSnapshot.set 20 1)) counterView).1 = .ok := by
  have hsize : counter.size = 3 := rfl
  have hcount : counterView.count = 1 := rfl
  have haccepted : Accepted counter 9 (header counter 9 counter.size counterView.count [0, 1, 2] ++ [0, 1, 2]) counterView :=
    accepted_created (by decide) (by decide) (by decide) (by decide) rfl fun _ => ⟨nofun, by decide⟩
  rw [hsize, hcount] at haccepted
  refine ⟨snapshotCreate_counter, by decide +kernel, ?_⟩
  by_contra h
  exact snapshotRestore_ne_ok_iff.mp h (haccepted.set_reserved (by decide) (by decide))

end Cxpr.Bulk
