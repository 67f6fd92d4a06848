import Cxpr.Bulk.StateStore
import Cxpr.Lib.LittleEndian

/-! Snapshots of the states of a bulk view (`src/bulk_snapshot.c`): a header of 56 bytes, and behind it the states without
    the gaps between them. -/

namespace Cxpr.Bulk
open Block

/-- `cxpr_generated_value_type`. -/
inductive GeneratedType where
  | unknown | number | bool | int64
deriving DecidableEq, Repr

def GeneratedType.code : GeneratedType → UInt64
  | .unknown => 0
  | .number => 1
  | .bool => 2
  | .int64 => 3

/-- A named value of a descriptor; the name may be `NULL`. -/
abbrev Port := Option String × GeneratedType

/-- `cxpr_generated_model_descriptor`, as far as snapshots read it. Pointers may be `NULL`. -/
structure Descriptor where
  name : Option String
  hasTick : Bool
  stateSize : Option UInt64
  inputs : List Port
  outputs : List Port
  params : List Port
  abiVersion : UInt32

def modelAbiVersion : UInt32 := 5

def maxPorts : Nat := 64

/-- The check of one named value in `cxpr_generated_model_descriptor_abi_valid`. -/
def portValid (port : Port) : Bool := port.1.isSome && port.2 != .unknown

def Descriptor.abiValid (d : Descriptor) : Bool :=
  d.abiVersion == modelAbiVersion && d.name.isSome && d.hasTick && d.stateSize.isSome &&
    d.inputs.length ≤ maxPorts && d.outputs.length ≤ maxPorts && d.params.length ≤ maxPorts &&
    d.inputs.all portValid && d.outputs.all portValid && d.params.all portValid

/-- What `state_size` returns. -/
def Descriptor.size (d : Descriptor) : Nat := (d.stateSize.getD 0).toNat

def hashBytes (hash : UInt64) (bytes : List UInt8) : UInt64 :=
  bytes.foldl (fun h b => (h ^^^ b.toUInt64) * 1099511628211) hash

def hashU64 (hash value : UInt64) : UInt64 := hashBytes hash (LittleEndian.write 8 value.toNat)

def hashName (hash : UInt64) (name : String) : UInt64 :=
  hashBytes (hashU64 hash (UInt64.ofNat name.utf8ByteSize)) name.toUTF8.toList

def hashPorts (hash : UInt64) (ports : List Port) : UInt64 :=
  ports.foldl (fun h port => hashU64 (hashName h (port.1.getD "")) port.2.code) (hashU64 hash (UInt64.ofNat ports.length))

def offsetBasis : UInt64 := 14695981039346656037

def Descriptor.layoutHash (d : Descriptor) (layoutId : UInt64) : UInt64 :=
  let hash := hashName offsetBasis (d.name.getD "")
  let hash := hashU64 hash layoutId
  let hash := hashU64 hash (UInt64.ofNat d.abiVersion.toNat)
  let hash := hashU64 hash (d.stateSize.getD 0)
  hashPorts (hashPorts (hashPorts hash d.inputs) d.outputs) d.params

def payloadChecksum (payload : List UInt8) : UInt64 := hashBytes offsetBasis payload

/-! ### Snapshots -/

inductive SnapshotStatus where
  | ok | invalidArgument | invalidDescriptor | invalidFormat | unsupportedVersion | layoutMismatch | elementCountMismatch
  | stateStrideTooSmall | checksumMismatch | allocationFailed
deriving DecidableEq, Repr

/-- The part of a `cxpr_bulk_view` that holds the states: a block, or `NULL`. -/
structure StateView where
  states : Option (Nat → UInt8)
  stateStride : UInt64
  elementCount : UInt64

def StateView.stride (v : StateView) : Nat := v.stateStride.toNat

def StateView.count (v : StateView) : Nat := v.elementCount.toNat

def StateView.byte (v : StateView) (offset : Nat) : Option UInt8 := v.states.map (· offset)

def StateView.offset (v : StateView) (i : Nat) : Nat := i * v.stride % 2 ^ 64

def headerSize : Nat := 56

def formatVersion : Nat := 1

def magic : List UInt8 := [67, 88, 80, 82, 66, 83, 78, 80]

def StateView.payload (v : StateView) (states : Nat → UInt8) (stateSize : Nat) : List UInt8 :=
  (List.range v.count).flatMap fun i => (List.range stateSize).map fun k => states (v.offset i + k)

def header (d : Descriptor) (layoutId : UInt64) (stateSize elementCount : Nat) (payload : List UInt8) : List UInt8 :=
  magic ++ (LittleEndian.write 4 formatVersion ++ (LittleEndian.write 4 headerSize ++
    (LittleEndian.write 4 d.abiVersion.toNat ++ (LittleEndian.write 4 0 ++
      (LittleEndian.write 8 (d.layoutHash layoutId).toNat ++ (LittleEndian.write 8 stateSize ++
        (LittleEndian.write 8 elementCount ++ LittleEndian.write 8 (payloadChecksum payload).toNat)))))))

/-- `cxpr_bulk_snapshot_create`, where `malloc` says whether a block of a size can be had. -/
def snapshotCreate (malloc : Nat → Bool) (descriptor : Option Descriptor) (layoutId : UInt64) (v : StateView) :
    Except SnapshotStatus (List UInt8) :=
  if layoutId = 0 then .error .invalidArgument
  else
    match descriptor with
    | none => .error .invalidDescriptor
    | some d =>
      if !d.abiValid then .error .invalidDescriptor
      else
        let stateSize := d.size
        if stateSize ≠ 0 ∧ (v.states = none ∨ v.stride < stateSize) then .error .stateStrideTooSmall
        else if stateSize ≠ 0 ∧ sizeMax / stateSize < v.count then .error .invalidArgument
        else if sizeMax - headerSize < stateSize * v.count then .error .invalidArgument
        else if !malloc (headerSize + stateSize * v.count) then .error .allocationFailed
        else
          let payload := match v.states with | some states => v.payload states stateSize | none => []
          .ok (header d layoutId stateSize v.count payload ++ payload)

/-- The loop of `cxpr_bulk_snapshot_restore`. -/
def copyStates (v : StateView) (payload : List UInt8) (stateSize : Nat) (states : Nat → UInt8) : Nat → UInt8 :=
  scatter v.offset stateSize v.count (fun i k => payload.getD (i * stateSize + k) 0) states

/-- The checks of `cxpr_bulk_snapshot_restore`: the payload of a snapshot that may be restored. -/
def snapshotCheck (descriptor : Option Descriptor) (layoutId : UInt64) (snapshot : Option (List UInt8)) (v : StateView) :
    Except SnapshotStatus (Nat × List UInt8) :=
  match snapshot with
  | none => .error .invalidArgument
  | some data =>
    if layoutId = 0 then .error .invalidArgument
    else
      match descriptor with
      | none => .error .invalidDescriptor
      | some d =>
        if !d.abiValid then .error .invalidDescriptor
        else if data.length < headerSize ∨ data.take 8 ≠ magic ∨ LittleEndian.field data 12 4 ≠ headerSize then
          .error .invalidFormat
        else if LittleEndian.field data 8 4 ≠ formatVersion then .error .unsupportedVersion
        else if LittleEndian.field data 16 4 ≠ d.abiVersion.toNat ∨
            LittleEndian.field data 24 8 ≠ (d.layoutHash layoutId).toNat then .error .layoutMismatch
        else
          let stateSize := d.size
          if LittleEndian.field data 32 8 ≠ stateSize then .error .layoutMismatch
          else if LittleEndian.field data 40 8 ≠ v.count then .error .elementCountMismatch
          else if stateSize ≠ 0 ∧ (v.states = none ∨ v.stride < stateSize) then .error .stateStrideTooSmall
          else if stateSize ≠ 0 ∧ sizeMax / stateSize < v.count then .error .invalidFormat
          else if sizeMax - headerSize < stateSize * v.count ∨
              data.length ≠ headerSize + stateSize * v.count then .error .invalidFormat
          else
            let payload := data.drop headerSize
            if LittleEndian.field data 48 8 ≠ (payloadChecksum payload).toNat then .error .checksumMismatch
            else .ok (stateSize, payload)

/-- `cxpr_bulk_snapshot_restore`: the status and the view behind it. -/
def snapshotRestore (descriptor : Option Descriptor) (layoutId : UInt64) (snapshot : Option (List UInt8)) (v : StateView) :
    SnapshotStatus × StateView :=
  match snapshotCheck descriptor layoutId snapshot v with
  | .error status => (status, v)
  | .ok (stateSize, payload) =>
    (.ok, if stateSize ≠ 0 then { v with states := v.states.map (copyStates v payload stateSize) } else v)

def StateView.Addressable (v : StateView) (stateSize : Nat) : Prop := ∀ i < v.count, i * v.stride + stateSize ≤ 2 ^ 64

theorem StateView.Addressable.offset_eq {v : StateView} {size i : Nat} (h : v.Addressable size) (hsize : size ≠ 0)
    (hi : i < v.count) : v.offset i = i * v.stride := by
  have hlt := h i hi
  exact Nat.mod_eq_of_lt (by omega)

theorem StateView.length_payload (v : StateView) (states : Nat → UInt8) (size : Nat) :
    (v.payload states size).length = size * v.count := by
  simp [payload, List.length_flatMap, Nat.mul_comm]

theorem StateView.payload_eq (v : StateView) (states : Nat → UInt8) (size n : Nat) :
    ((List.range (n + 1)).flatMap fun i => (List.range size).map fun k => states (v.offset i + k)) =
      ((List.range n).flatMap fun i => (List.range size).map fun k => states (v.offset i + k)) ++
        (List.range size).map fun k => states (v.offset n + k) := by
  rw [List.range_succ, List.flatMap_append, List.flatMap_singleton]

theorem StateView.getD_payload (v : StateView) (states : Nat → UInt8) {size n i k : Nat} (hi : i < n) (hk : k < size) :
    ((List.range n).flatMap fun i => (List.range size).map fun k => states (v.offset i + k)).getD (i * size + k) 0 =
      states (v.offset i + k) := by
  induction n with
  | zero => cases hi
  | succ n ih =>
    have hlength : ((List.range n).flatMap fun i => (List.range size).map fun k => states (v.offset i + k)).length =
        n * size := by simp [List.length_flatMap]
    rw [v.payload_eq states size n]
    rcases Nat.lt_succ_iff_lt_or_eq.mp hi with hi | rfl
    · rw [List.getD_append _ _ _ _ (hlength ▸ slot_offset_lt hk hi)]
      exact ih hi
    · rw [List.getD_append_right _ _ _ _ (hlength ▸ Nat.le_add_right _ _), hlength, Nat.add_sub_cancel_left,
        List.getD_eq_getElem _ _ (by simpa using hk)]
      simp

section
variable {v : StateView} {payload : List UInt8} {size : Nat} {states : Nat → UInt8}

theorem copyStates_inside {i k : Nat} (hv : v.Addressable size) (hstride : size ≤ v.stride) (hi : i < v.count) (hk : k < size) :
    copyStates v payload size states (i * v.stride + k) = payload.getD (i * size + k) 0 := by
  have hsize : size ≠ 0 := Nat.ne_zero_of_lt hk
  rw [← hv.offset_eq hsize hi]
  refine scatter_inside (fun a b hab hb => ?_) hi hk
  rw [hv.offset_eq hsize (hab.trans hb), hv.offset_eq hsize hb]
  calc a * v.stride + size ≤ a * v.stride + v.stride := Nat.add_le_add_left hstride _
    _ = (a + 1) * v.stride := (Nat.succ_mul a v.stride).symm
    _ ≤ b * v.stride := Nat.mul_le_mul_right v.stride hab

theorem copyStates_outside {p : Nat} (hv : v.Addressable size) (hsize : size ≠ 0)
    (hp : ∀ i < v.count, p < i * v.stride ∨ i * v.stride + size ≤ p) : copyStates v payload size states p = states p := by
  refine scatter_outside fun i hi => ?_
  rw [hv.offset_eq hsize hi]
  exact hp i hi

end

section
variable (d : Descriptor) (layoutId : UInt64) {size count : Nat} (payload : List UInt8)

theorem length_header : (header d layoutId size count payload).length = headerSize := by
  simp [header, magic, headerSize]

theorem take_header : (header d layoutId size count payload ++ payload).take 8 = magic := by
  rw [header, List.append_assoc]
  exact List.take_left' rfl

theorem header_fields (hsize : size < 2 ^ 64) (hcount : count < 2 ^ 64) :
    LittleEndian.field (header d layoutId size count payload ++ payload) 8 4 = formatVersion ∧
      LittleEndian.field (header d layoutId size count payload ++ payload) 12 4 = headerSize ∧
      LittleEndian.field (header d layoutId size count payload ++ payload) 16 4 = d.abiVersion.toNat ∧
      LittleEndian.field (header d layoutId size count payload ++ payload) 24 8 = (d.layoutHash layoutId).toNat ∧
      LittleEndian.field (header d layoutId size count payload ++ payload) 32 8 = size ∧
      LittleEndian.field (header d layoutId size count payload ++ payload) 40 8 = count ∧
      LittleEndian.field (header d layoutId size count payload ++ payload) 48 8 = (payloadChecksum payload).toNat := by
  have hmagic : magic.length = 8 := rfl
  simp only [header, List.append_assoc]
  refine ⟨?_, ?_, ?_, ?_, ?_, ?_, ?_⟩ <;>
    simp [LittleEndian.field_append, LittleEndian.field_write, hmagic, formatVersion, headerSize]
  · exact hsize
  · exact hcount

end

section
variable {d : Descriptor} {layoutId : UInt64} {data : List UInt8} {w : StateView}

structure Accepted (d : Descriptor) (layoutId : UInt64) (data : List UInt8) (w : StateView) : Prop where
  identified : layoutId ≠ 0
  abiValid : d.abiValid = true
  magic : data.take 8 = Bulk.magic
  version : LittleEndian.field data 8 4 = formatVersion
  headerSize : LittleEndian.field data 12 4 = Bulk.headerSize
  abiVersion : LittleEndian.field data 16 4 = d.abiVersion.toNat
  layoutHash : LittleEndian.field data 24 8 = (d.layoutHash layoutId).toNat
  stateSize : LittleEndian.field data 32 8 = d.size
  elementCount : LittleEndian.field data 40 8 = w.count
  states : d.size ≠ 0 → w.states ≠ none ∧ d.size ≤ w.stride
  counts : d.size ≠ 0 → w.count ≤ sizeMax / d.size
  total : d.size * w.count ≤ sizeMax - Bulk.headerSize
  length : data.length = Bulk.headerSize + d.size * w.count
  checksum : LittleEndian.field data 48 8 = (payloadChecksum (data.drop Bulk.headerSize)).toNat

theorem Accepted.snapshotCheck_eq (h : Accepted d layoutId data w) :
    snapshotCheck (some d) layoutId (some data) w = .ok (d.size, data.drop Bulk.headerSize) := by
  have hformat : ¬ (data.length < Bulk.headerSize ∨ data.take 8 ≠ Bulk.magic ∨
      LittleEndian.field data 12 4 ≠ Bulk.headerSize) := by
    rintro (hshort | hmagic | hfield)
    · have := h.length
      omega
    · exact hmagic h.magic
    · exact hfield h.headerSize
  have hroom : ¬ (d.size ≠ 0 ∧ (w.states = none ∨ w.stride < d.size)) := by
    rintro ⟨hne, hnone | hlt⟩
    · exact (h.states hne).1 hnone
    · exact absurd hlt (Nat.not_lt.mpr (h.states hne).2)
  have hcounts : ¬ (d.size ≠ 0 ∧ sizeMax / d.size < w.count) := fun hlt => absurd hlt.2 (Nat.not_lt.mpr (h.counts hlt.1))
  have htotal : ¬ (sizeMax - Bulk.headerSize < d.size * w.count ∨ data.length ≠ Bulk.headerSize + d.size * w.count) := by
    rintro (hlt | hne)
    · exact absurd hlt (Nat.not_lt.mpr h.total)
    · exact hne h.length
  unfold snapshotCheck
  dsimp only
  rw [if_neg h.identified, h.abiValid, if_neg (by decide), if_neg hformat, if_neg (not_not.mpr h.version),
    if_neg (by rw [h.abiVersion, h.layoutHash]; simp), if_neg (not_not.mpr h.stateSize),
    if_neg (not_not.mpr h.elementCount), if_neg hroom, if_neg hcounts, if_neg htotal, if_neg (not_not.mpr h.checksum)]

end

section
variable {malloc : Nat → Bool} {descriptor : Option Descriptor} {layoutId : UInt64} {v w : StateView}
  {snapshot : List UInt8}

theorem snapshotCreate_eq_ok (h : snapshotCreate malloc descriptor layoutId v = .ok snapshot) :
    layoutId ≠ 0 ∧ ∃ d payload, descriptor = some d ∧ d.abiValid = true ∧ d.size * v.count ≤ sizeMax - headerSize ∧
      (d.size ≠ 0 → v.count ≤ sizeMax / d.size) ∧ payload.length = d.size * v.count ∧
      (d.size ≠ 0 → ∃ states, v.states = some states ∧ payload = v.payload states d.size) ∧
      snapshot = header d layoutId d.size v.count payload ++ payload := by
  unfold snapshotCreate at h
  split at h
  · cases h
  · rename_i hlayout
    refine ⟨hlayout, ?_⟩
    cases descriptor with
    | none => cases h
    | some d =>
      dsimp only at h
      split at h
      · cases h
      · rename_i hvalid
        split at h
        · cases h
        · rename_i hstates
          split at h
          · cases h
          · rename_i hcount
            split at h
            · cases h
            · rename_i htotal
              split at h
              · cases h
              · cases h
                have hcounts : d.size ≠ 0 → v.count ≤ sizeMax / d.size := fun hsize =>
                  Nat.not_lt.mp fun hlt => hcount ⟨hsize, hlt⟩
                refine ⟨d, _, rfl, by simpa using hvalid, Nat.not_lt.mp htotal, hcounts, ?_, ?_, rfl⟩
                · cases hv : v.states with
                  | some states => exact v.length_payload states d.size
                  | none =>
                    have hzero : d.size = 0 := by
                      by_contra hsize
                      exact hstates ⟨hsize, .inl hv⟩
                    rw [hzero, Nat.zero_mul]
                    rfl
                · intro hsize
                  cases hv : v.states with
                  | some states => exact ⟨states, rfl, rfl⟩
                  | none => exact absurd ⟨hsize, .inl hv⟩ hstates

theorem accepted_created {d : Descriptor} {payload : List UInt8} (hlayout : layoutId ≠ 0) (hvalid : d.abiValid = true)
    (htotal : d.size * w.count ≤ sizeMax - headerSize) (hcounts : d.size ≠ 0 → w.count ≤ sizeMax / d.size)
    (hpayload : payload.length = d.size * w.count) (hstates : d.size ≠ 0 → w.states ≠ none ∧ d.size ≤ w.stride) :
    Accepted d layoutId (header d layoutId d.size w.count payload ++ payload) w := by
  have hsize : d.size < 2 ^ 64 := (d.stateSize.getD 0).toNat_lt
  have hcount : w.count < 2 ^ 64 := w.elementCount.toNat_lt
  obtain ⟨hversion, hheader, habi, hhash, hstored, helements, hchecksum⟩ := header_fields d layoutId payload hsize hcount
  have hlength := @length_header d layoutId d.size w.count payload
  exact
    { identified := hlayout
      abiValid := hvalid
      magic := take_header d layoutId payload
      version := hversion
      headerSize := hheader
      abiVersion := habi
      layoutHash := hhash
      stateSize := hstored
      elementCount := helements
      states := hstates
      counts := hcounts
      total := htotal
      length := by rw [List.length_append, hlength, hpayload]
      checksum := by rw [List.drop_left' hlength]; exact hchecksum }

/-- A view that holds states of a size: it has a block for them, in which they do not overlap. -/
structure StateView.Provides (v : StateView) (stateSize : Nat) : Prop where
  states : stateSize ≠ 0 → v.states ≠ none
  stride : stateSize ≤ v.stride
  addressable : v.Addressable stateSize

theorem snapshotRestore_created {d : Descriptor} (hcreate : snapshotCreate malloc (some d) layoutId v = .ok snapshot)
    (hcount : w.elementCount = v.elementCount) (hv : v.Provides d.size) (hw : w.Provides d.size) :
    ∃ w', snapshotRestore (some d) layoutId (some snapshot) w = (.ok, w') ∧
      (∀ i < w.count, ∀ k < d.size, w'.byte (i * w.stride + k) = v.byte (i * v.stride + k)) ∧
      ∀ p, (∀ i < w.count, p < i * w.stride ∨ i * w.stride + d.size ≤ p) → w'.byte p = w.byte p := by
  obtain ⟨hlayout, d', payload, hd, hvalid, htotal, hcounts, hpayload, hstates, rfl⟩ := snapshotCreate_eq_ok hcreate
  obtain rfl := Option.some.inj hd
  have hcounts' : v.count = w.count := congrArg UInt64.toNat hcount.symm
  rw [hcounts'] at htotal hcounts hpayload ⊢
  have haccepted := accepted_created hlayout hvalid htotal hcounts hpayload fun hsize => ⟨hw.states hsize, hw.stride⟩
  rw [snapshotRestore, haccepted.snapshotCheck_eq, List.drop_left' (length_header d layoutId payload)]
  refine ⟨_, rfl, ?_⟩
  by_cases hsize : d.size = 0
  · rw [if_neg (not_not.mpr hsize)]
    refine ⟨fun i _ k hk => ?_, fun _ _ => rfl⟩
    rw [hsize] at hk
    cases hk
  · rw [if_pos hsize]
    obtain ⟨states, hsource, rfl⟩ := hstates hsize
    obtain ⟨target, htarget⟩ := Option.ne_none_iff_exists'.mp (hw.states hsize)
    refine ⟨fun i hi k hk => ?_, fun p hp => ?_⟩
    · rw [StateView.byte, StateView.byte, htarget, hsource]
      simp only [Option.map_some]
      rw [copyStates_inside hw.addressable hw.stride hi hk, StateView.payload, hcounts', v.getD_payload states hi hk,
        hv.addressable.offset_eq hsize (hcounts' ▸ hi)]
    · rw [StateView.byte, StateView.byte, htarget]
      simp only [Option.map_some]
      rw [copyStates_outside hw.addressable hsize hp]

theorem snapshotRestore_failed {data : Option (List UInt8)} (h : (snapshotRestore descriptor layoutId data w).1 ≠ .ok) :
    (snapshotRestore descriptor layoutId data w).2 = w := by
  unfold snapshotRestore at h ⊢
  cases hcheck : snapshotCheck descriptor layoutId data w with
  | error status => rfl
  | ok found =>
    rw [hcheck] at h
    exact absurd rfl h

end

/-- A snapshot of one view is restored into any other view with as many elements, whatever the strides: every element gets
    its bytes, and the gaps stay as they are. A restore that does not succeed changes nothing. -/
theorem snapshot_round_trip (d : Descriptor) (layoutId : UInt64) :
    (∀ malloc v w snapshot, snapshotCreate malloc (some d) layoutId v = .ok snapshot → w.elementCount = v.elementCount →
      v.Provides d.size → w.Provides d.size →
      ∃ w', snapshotRestore (some d) layoutId (some snapshot) w = (.ok, w') ∧
        (∀ i < w.count, ∀ k < d.size, w'.byte (i * w.stride + k) = v.byte (i * v.stride + k)) ∧
        ∀ p, (∀ i < w.count, p < i * w.stride ∨ i * w.stride + d.size ≤ p) → w'.byte p = w.byte p) ∧
      ∀ descriptor snapshot w, (snapshotRestore descriptor layoutId snapshot w).1 ≠ .ok →
        (snapshotRestore descriptor layoutId snapshot w).2 = w :=
  ⟨fun _ _ _ _ hcreate hcount hv hw => snapshotRestore_created hcreate hcount hv hw, fun _ _ _ h => snapshotRestore_failed h⟩

theorem counters_round_trip :
    let d : Descriptor := ⟨some "counter", true, some 3, [(some "amount", .number)], [(some "total", .number)], [], 5⟩
    let v : StateView := ⟨some fun p => UInt8.ofNat p, 3, 2⟩
    let w : StateView := ⟨some fun _ => 255, 5, 2⟩
    ∃ snapshot w', snapshotCreate (fun _ => true) (some d) 9 v = .ok snapshot ∧
      snapshotRestore (some d) 9 (some snapshot) w = (.ok, w') ∧ w'.byte 6 = some 4 ∧ w'.byte 4 = some 255 := by
  intro d v w
  have hv : v.Provides d.size := ⟨fun _ => nofun, by decide, by unfold StateView.Addressable; decide⟩
  have hw : w.Provides d.size := ⟨fun _ => nofun, by decide, by unfold StateView.Addressable; decide⟩
  have hcreate : snapshotCreate (fun _ => true) (some d) 9 v =
      .ok (header d 9 d.size v.count (v.payload (fun p => UInt8.ofNat p) d.size) ++
        v.payload (fun p => UInt8.ofNat p) d.size) := by
    have hvalid : d.abiValid = true := by decide
    unfold snapshotCreate
    dsimp only
    rw [if_neg (by decide), hvalid, if_neg (by decide), if_neg (fun h => h.2.elim nofun (by decide)), if_neg (by decide),
      if_neg (by decide), if_neg (by decide)]
  obtain ⟨w', hrestore, hinside, houtside⟩ := (snapshot_round_trip d 9).1 (fun _ => true) v w _ hcreate rfl hv hw
  exact ⟨_, w', hcreate, hrestore, hinside 1 (by decide) 1 (by decide), houtside 4 (by decide)⟩

end Cxpr.Bulk
