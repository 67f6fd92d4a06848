import Mathlib.Data.List.Basic

/-! Hash tables with open addressing: a probe starts at the slot of the key's hash and goes on, slot by slot, to the
    key or to an empty slot. Nothing is ever removed from a table. -/

namespace ProbeTable
variable {K V : Type}

structure Table (K V : Type) where
  entries : List (Option (K × V))
  count : Nat := 0

def empty (capacity : Nat) : Table K V := ⟨List.replicate capacity none, 0⟩

def probe [DecidableEq K] (entries : List (Option (K × V))) (key : K) : Nat → Nat → Option Nat
  | 0, _ => none
  | fuel + 1, slot =>
    match entries[slot]? with
    | some (some (k, _)) => if k = key then some slot else probe entries key fuel ((slot + 1) % entries.length)
    | _ => none

def freeSlot (entries : List (Option (K × V))) : Nat → Nat → Nat
  | 0, slot => slot
  | fuel + 1, slot =>
    match entries[slot]? with
    | some (some _) => freeSlot entries fuel ((slot + 1) % entries.length)
    | _ => slot

def place (hash : K → Nat) (entries : List (Option (K × V))) (entry : K × V) : List (Option (K × V)) :=
  entries.set (freeSlot entries entries.length (hash entry.1 % entries.length)) (some entry)

def grow (hash : K → Nat) (entries : List (Option (K × V))) : List (Option (K × V)) :=
  (entries.filterMap id).foldl (place hash) (List.replicate (2 * entries.length) none)

namespace Table

def find [DecidableEq K] (hash : K → Nat) (t : Table K V) (key : K) : Option Nat :=
  if t.count = 0 then none else probe t.entries key t.entries.length (hash key % t.entries.length)

/-- The value in a slot; an empty slot holds `zero`. -/
def valueAt (zero : V) (t : Table K V) (slot : Nat) : V :=
  match t.entries[slot]? with
  | some (some (_, v)) => v
  | _ => zero

def setAt (t : Table K V) (slot : Nat) (value : V) : Table K V :=
  { t with entries := t.entries.modify slot (Option.map fun entry => (entry.1, value)) }

/-- The next key would exceed the load factor `3/4`. -/
def full (t : Table K V) : Bool := 3 * t.entries.length < 4 * (t.count + 1)

def insertNew (hash : K → Nat) (t : Table K V) (key : K) (value : V) : Table K V :=
  ⟨place hash (if t.full then grow hash t.entries else t.entries) (key, value), t.count + 1⟩

end Table

section
variable [DecidableEq K] {hash : K → Nat} {t : Table K V}

theorem probe_modify (entries : List (Option (K × V))) (key : K) (i : Nat) (value : V) (fuel slot : Nat) :
    probe (entries.modify i (Option.map fun entry => (entry.1, value))) key fuel slot = probe entries key fuel slot := by
  induction fuel generalizing slot with
  | zero => rfl
  | succ fuel ih =>
    simp only [probe, List.getElem?_modify, List.length_modify, ih]
    by_cases hi : i = slot
    · subst hi
      cases entries[i]? with
      | none => rfl
      | some entry => cases entry <;> simp
    · simp [hi]

theorem find_setAt (slot : Nat) (value : V) (key : K) : (t.setAt slot value).find hash key = t.find hash key := by
  simp only [Table.find, Table.setAt, List.length_modify, probe_modify]

end
end ProbeTable
