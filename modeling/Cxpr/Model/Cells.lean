import Cxpr.Context

/-! What the stores of a context hold under one name. A write changes the cell of its own name and no other; how the
    cell reads afterwards depends on what the setter left in it. -/

namespace Cxpr
variable {D : Type}

structure Cell (D : Type) where
  var : Option D := none
  bool : Option Bool := none
  int64 : Option Int64 := none
  string : Option String := none
  array : Option (List (Value D)) := none
  struct : Option (List (String × Value D)) := none

structure Params (D : Type) where
  params : NameMap D
  boolParams : NameMap Bool
  int64Params : NameMap Int64
  stringParams : NameMap String
  arrayParams : NameMap (List (Value D))

namespace Cell

/-- What `cxpr_context_set_value` makes of a cell. -/
def put (c : Cell D) : Value D → Cell D
  | .number d => { var := some d }
  | .bool b => { var := c.var, bool := some b }
  | .int64 i => { var := c.var, int64 := some i }
  | .string str => { var := c.var, int64 := c.int64, string := some str }
  | .array a => { var := c.var, int64 := c.int64, array := some a }
  | .struct s => { var := c.var, int64 := c.int64, struct := some s }
  | .null | .timestamp _ | .duration _ => c

/-- What `cxpr_context_get_typed` finds in a cell. -/
def read (c : Cell D) : Option (Value D) :=
  c.bool.map .bool <|>
  (c.int64.map .int64 <|>
  (c.string.map .string <|>
  (c.array.map .array <|>
  (c.var.map .number <|>
  c.struct.map .struct))))

/-- A value that reads back after it is written to the cell: no entry that its setter leaves stands before it. -/
def Takes (c : Cell D) : Value D → Prop
  | .number _ | .bool _ | .int64 _ => True
  | .string _ | .array _ => c.int64 = none
  | .struct _ => c.int64 = none ∧ c.var = none
  | .null | .timestamp _ | .duration _ => False

theorem read_put_iff (c : Cell D) (v : Value D) : (c.put v).read = some v ↔ c.Takes v := by
  obtain ⟨var, bool, int64, string, array, struct⟩ := c
  cases v with
  | number d => simp [put, read, Takes]
  | bool b => simp [put, read, Takes]
  | int64 i => simp [put, read, Takes]
  | string str => cases int64 <;> simp [put, read, Takes]
  | array a => cases int64 <;> simp [put, read, Takes]
  | struct s => cases int64 <;> cases var <;> simp [put, read, Takes]
  | null | timestamp _ | duration _ => simp [put, read, Takes]

theorem read_array_with_struct {c : Cell D} {a : List (Value D)} (h : c.read = some (.array a))
    (struct : Option (List (String × Value D))) : Cell.read { c with struct := struct } = some (.array a) := by
  obtain ⟨var, bool, int64, string, array, struct'⟩ := c
  cases bool <;> cases int64 <;> cases string <;> cases array <;> cases var <;> cases struct' <;> simp_all [read]

theorem takes_of_clean {c : Cell D} {v : Value D} (hv : ({} : Cell D).Takes v) (hvar : c.var = none)
    (hint64 : c.int64 = none) : c.Takes v := by
  cases v <;> simp_all [Takes]

end Cell

namespace Frame

def cell (f : Frame D) (n : String) : Cell D where
  var := f.vars.lookup n
  bool := f.bools.lookup n
  int64 := f.int64s.lookup n
  string := f.strings.lookup n
  array := f.arrays.lookup n
  struct := f.structs.lookup n

def paramStores (f : Frame D) : Params D :=
  ⟨f.params, f.boolParams, f.int64Params, f.stringParams, f.arrayParams⟩

theorem getTyped_eq_read (f : Frame D) (n : String) (hscope : f.expressionScope = none) :
    f.getTyped n = ((f.cell n).read <|> (f.cachedStructs.lookup n).map .struct) := by
  simp only [getTyped, hscope, Option.bind_none, Cell.read, cell]
  cases f.bools.lookup n <;> cases f.int64s.lookup n <;> cases f.strings.lookup n <;> cases f.arrays.lookup n <;>
    cases f.vars.lookup n <;> simp

theorem cell_setValue_self (f : Frame D) (n : String) (v : Value D) :
    (f.setValue n v).cell n = (f.cell n).put v := by
  cases v <;>
    simp [setValue, set, setBool, setInt64, setString, setStruct, cell, Cell.put]

variable {n m : String}

theorem cell_setValue_of_ne (f : Frame D) (v : Value D) (hne : m ≠ n) :
    (f.setValue n v).cell m = f.cell m := by
  cases v <;>
    simp [setValue, set, setBool, setInt64, setString, setStruct, cell, hne]

theorem cell_setValue (f : Frame D) (n m : String) (v : Value D) :
    (f.setValue n v).cell m = if m = n then (f.cell m).put v else f.cell m := by
  split
  · rename_i h
    rw [h, cell_setValue_self]
  · rename_i h
    exact cell_setValue_of_ne f v h

@[simp] theorem paramStores_setValue (f : Frame D) (n : String) (v : Value D) :
    (f.setValue n v).paramStores = f.paramStores := by
  cases v <;> rfl

theorem cell_setParamValue (f : Frame D) (n m : String) (v : Value D) :
    ∃ struct, (f.setParamValue n v).cell m = { f.cell m with struct := struct } := by
  refine ⟨((f.setParamValue n v).cell m).struct, ?_⟩
  cases v <;> rfl

theorem cell_setParamValue_of_ne (f : Frame D) (v : Value D) (hne : m ≠ n) :
    (f.setParamValue n v).cell m = f.cell m := by
  cases v <;>
    simp [setParamValue, setParam, setParamBool, setParamInt64, setParamString, cell, hne]

theorem cell_setParamValue_congr {f g : Frame D} (n : String) (v : Value D) (h : g.cell m = f.cell m) :
    (g.setParamValue n v).cell m = (f.setParamValue n v).cell m := by
  by_cases hm : m = n
  · subst hm
    simp only [cell, Cell.mk.injEq] at h
    obtain ⟨hvar, hbool, hint64, hstring, harray, hstruct⟩ := h
    cases v <;> simp [setParamValue, setParam, setParamBool, setParamInt64, setParamString, cell, *]
  · rw [cell_setParamValue_of_ne f v hm, cell_setParamValue_of_ne g v hm, h]

theorem paramStores_setParamValue_congr {f g : Frame D} (n : String) (v : Value D) (h : g.paramStores = f.paramStores) :
    (g.setParamValue n v).paramStores = (f.setParamValue n v).paramStores := by
  simp only [paramStores, Params.mk.injEq] at h
  obtain ⟨hparams, hbool, hint64, hstring, harray⟩ := h
  cases v <;> simp [setParamValue, setParam, setParamBool, setParamInt64, setParamString, paramStores, *]

theorem cell_setParamValue_of_type (f : Frame D) (n m : String) {v : Value D} (hv : v.type ≠ .struct) :
    (f.setParamValue n v).cell m = f.cell m ∨ (f.setParamValue n v).cell m = { f.cell m with struct := none } := by
  by_cases hm : m = n
  · subst hm
    cases v with
    | struct fields => exact absurd rfl hv
    | int64 _ | null | timestamp _ | duration _ => exact Or.inl rfl
    | _ =>
      right
      simp [setParamValue, setParam, setParamBool, setParamString, cell]
  · exact Or.inl (cell_setParamValue_of_ne f v hm)

/-- Two contexts with the same cells and the same parameters; the order of the entries and the versions may differ. -/
structure Alike (f g : Frame D) : Prop where
  cell : ∀ n, g.cell n = f.cell n
  params : g.paramStores = f.paramStores

variable {f g h : Frame D}

theorem Alike.refl (f : Frame D) : Alike f f := ⟨fun _ => rfl, rfl⟩

theorem Alike.symm (hfg : Alike f g) : Alike g f := ⟨fun n => (hfg.cell n).symm, hfg.params.symm⟩

theorem Alike.trans (hfg : Alike f g) (hgh : Alike g h) : Alike f h :=
  ⟨fun n => (hgh.cell n).trans (hfg.cell n), hgh.params.trans hfg.params⟩

theorem Alike.setValue (hfg : Alike f g) (n : String) (v : Value D) : Alike (f.setValue n v) (g.setValue n v) where
  cell m := by rw [cell_setValue, cell_setValue, hfg.cell m]
  params := by rw [paramStores_setValue, paramStores_setValue, hfg.params]

theorem Alike.setParamValue (hfg : Alike f g) (n : String) (v : Value D) :
    Alike (f.setParamValue n v) (g.setParamValue n v) where
  cell m := cell_setParamValue_congr n v (hfg.cell m)
  params := paramStores_setParamValue_congr n v hfg.params

theorem alike_setValue_comm (f : Frame D) (v w : Value D) (hne : n ≠ m) :
    Alike ((f.setValue n v).setValue m w) ((f.setValue m w).setValue n v) where
  cell k := by
    simp only [cell_setValue]
    by_cases hn : k = n
    · subst hn
      simp [hne]
    · simp [hn]
  params := by simp only [paramStores_setValue]

end Frame
end Cxpr
