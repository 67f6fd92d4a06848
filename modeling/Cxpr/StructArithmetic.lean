import Mathlib.Data.List.Perm.Subperm
import Mathlib.Data.List.Forall2
import Cxpr.Eval.Tree
import Cxpr.ExactArithmetic

/-! Struct arithmetic (`src/value_ops.c`) is fieldwise but for int64 values: `cxpr_value_binary_op` rejects an int64
    beside anything else before it looks at structs, while `cxpr_value_is_struct_scalar_operand` lists int64 as a partner
    of structs, and the fields of structs, which do not come through that test, are combined so. -/

namespace Cxpr.StructArithmetic
open Eval ValueOps
variable {D : Type} [Double D] {op : BinaryOp} {v : ValOp} {a b r : Value D} {fs gs rs : List (String × Value D)}

/-! ### Fieldwise -/

/-- The operation works by the operands under each name: it succeeds if the shapes allow it and it does under every name,
    and then the fields are the results. -/
def Fieldwise (op : BinaryOp) (a b : Value D) (shape : Prop) (names : List String)
    (operands : String → Option (Value D × Value D)) : Prop :=
  ((∃ r, arithmeticOp op a b = .ok r) ↔
    shape ∧ ∀ name x y, operands name = some (x, y) → ∃ r, arithmeticOp op x y = .ok r) ∧
  ∀ r, arithmeticOp op a b = .ok r → ∃ rs, r = .struct rs ∧ rs.map (·.1) = names ∧
    ∀ name x y, operands name = some (x, y) → ∃ z, structGetField rs name = some z ∧ arithmeticOp op x y = .ok z

omit [Double D] in
def bothFields (fs gs : List (String × Value D)) (name : String) : Option (Value D × Value D) :=
  (structGetField fs name).bind fun x => (structGetField gs name).map fun y => (x, y)

omit [Double D] in
def SameNames (fs gs : List (String × Value D)) : Prop := ∀ name, name ∈ fs.map (·.1) ↔ name ∈ gs.map (·.1)

def StructsFieldwise (op : BinaryOp) (fs gs : List (String × Value D)) : Prop :=
  Fieldwise op (.struct fs) (.struct gs) (SameNames fs gs) (fs.map (·.1)) (bothFields fs gs)

def RightFieldwise (op : BinaryOp) (fs : List (String × Value D)) (s : Value D) : Prop :=
  Fieldwise op (.struct fs) s True (fs.map (·.1)) fun name => (structGetField fs name).map (·, s)

def LeftFieldwise (op : BinaryOp) (s : Value D) (gs : List (String × Value D)) : Prop :=
  Fieldwise op s (.struct gs) True (gs.map (·.1)) fun name => (structGetField gs name).map (s, ·)

omit [Double D] in
def mixes : Value D → Value D → Bool
  | .int64 _, .struct _ | .struct _, .int64 _ => true
  | _, _ => false

omit [Double D] in
def MixedField (fs gs : List (String × Value D)) : Prop := ∃ name x y, bothFields fs gs name = some (x, y) ∧ mixes x y = true

/-- The operands fit together down to their scalars: structs have the same names, and each pair of scalars that comes
    together has a result. -/
inductive Operable (v : ValOp) : Value D → Value D → Prop
  | scalar {a b r : Value D} (ha : isStruct a = false) (hb : isStruct b = false) (h : scalarBinaryOp v a b = some (.ok r)) :
      Operable v a b
  | structs {fs gs : List (String × Value D)} (hlength : gs.length = fs.length)
      (hnames : ∀ f ∈ fs, ∃ y, structGetField gs f.1 = some y)
      (h : ∀ f ∈ fs, ∀ y, structGetField gs f.1 = some y → Operable v f.2 y) : Operable v (.struct fs) (.struct gs)
  | left {fs : List (String × Value D)} {b : Value D} (hb : isStruct b = false) (hscalar : isStructScalarOperand b = true)
      (h : ∀ f ∈ fs, Operable v f.2 b) : Operable v (.struct fs) b
  | right {gs : List (String × Value D)} {a : Value D} (ha : isStruct a = false) (hscalar : isStructScalarOperand a = true)
      (h : ∀ g ∈ gs, Operable v a g.2) : Operable v a (.struct gs)

theorem isOrdering_of_arith (hop : arithValOp op = some v) : isOrdering v = false := by
  cases op <;> cases hop <;> rfl

theorem arithmeticOp_numbers (hop : arithValOp op = some v) (x y : D) :
    arithmeticOp op (.number x) (.number y) = .ok r ↔ binaryOpImpl v (.number x) (.number y) = some (.ok r) := by
  show _ ↔ numericBinaryOp v x y = some (.ok r)
  cases op <;> cases hop <;> simp only [arithmeticOp, numericBinaryOp, Option.some.injEq]
  by_cases hzero : Double.eq y Double.zero = true
  · simp [hzero, divZero]
  · simp [hzero]

variable {handled : Handled D} {pair : Value D → Value D × Value D}

omit [Double D] in
theorem handledOr_eq_ok {message : String} :
    handledOr handled message = .ok r ↔ handled = some (.ok r) := by
  cases handled with
  | none => simp [handledOr]
  | some result => simp [handledOr]

theorem arithmeticOp_eq_ok (hop : arithValOp op = some v) :
    arithmeticOp op a b = .ok r ↔ mixes a b = false ∧ binaryOpImpl v a b = some (.ok r) := by
  cases a with
  | number x =>
    cases b with
    | number y => simpa [mixes] using arithmeticOp_numbers hop x y
    | int64 => simp [arithmeticOp, hop, handledOr_eq_ok, mixes, valueBinaryOp, typeError, binaryOpImpl, binaryOpScalarLeft,
        scalarBinaryOp, isTemporal]
    | struct | bool | string | null | array | timestamp | duration =>
      simp only [arithmeticOp, hop, Option.bind_some, handledOr_eq_ok, mixes, true_and]
      rfl
  | int64 x =>
    cases b with
    | struct => simp [arithmeticOp, hop, handledOr_eq_ok, mixes, valueBinaryOp, typeError]
    | int64 =>
      simp only [arithmeticOp, hop, Option.bind_some, handledOr_eq_ok, mixes, true_and]
      rfl
    | number | bool | string | null | array | timestamp | duration =>
      simp [arithmeticOp, hop, handledOr_eq_ok, mixes, valueBinaryOp, typeError, binaryOpImpl, binaryOpScalarLeft,
        scalarBinaryOp, isTemporal]
  | struct fs =>
    cases b with
    | int64 => simp [arithmeticOp, hop, handledOr_eq_ok, mixes, valueBinaryOp, typeError]
    | struct | number | bool | string | null | array | timestamp | duration =>
      simp only [arithmeticOp, hop, Option.bind_some, handledOr_eq_ok, mixes, true_and]
      rfl
  | bool | string | null | array | timestamp | duration =>
    cases b with
    | int64 => simp [arithmeticOp, hop, handledOr_eq_ok, mixes, valueBinaryOp, typeError, binaryOpImpl, binaryOpScalarLeft,
        scalarBinaryOp, isTemporal]
    | number | struct | bool | string | null | array | timestamp | duration =>
      simp only [arithmeticOp, hop, Option.bind_some, handledOr_eq_ok, mixes, true_and]
      rfl

section
omit [Double D]
variable {P : String → Value D → Value D → Prop}

theorem structGetField_cons (f : String × Value D) (name : String) :
    structGetField (f :: fs) name = if f.1 = name then some f.2 else structGetField fs name := by
  unfold structGetField
  rw [List.find?_cons]
  by_cases hname : f.1 = name
  · simp [hname]
  · rw [beq_eq_false_iff_ne.mpr hname, if_neg hname]

theorem exists_structGetField {name : String} : (∃ x, structGetField fs name = some x) ↔ name ∈ fs.map (·.1) := by
  induction fs with
  | nil => simp [structGetField]
  | cons f fs ih =>
    rw [structGetField_cons, List.map_cons, List.mem_cons, ← ih]
    by_cases hname : f.1 = name
    · simp [hname]
    · simp [hname, Ne.symm hname]

theorem forall_fields (hnodup : (fs.map (·.1)).Nodup) {Q : String → Value D → Prop} :
    (∀ f ∈ fs, Q f.1 f.2) ↔ ∀ name x, structGetField fs name = some x → Q name x := by
  induction fs with
  | nil => simp [structGetField]
  | cons f fs ih =>
    rw [List.map_cons, List.nodup_cons] at hnodup
    rw [List.forall_mem_cons, ih hnodup.2]
    constructor
    · rintro ⟨hf, hfs⟩ name x hget
      rw [structGetField_cons] at hget
      split at hget
      · rename_i hname
        cases hget
        exact hname ▸ hf
      · exact hfs name x hget
    · intro h
      refine ⟨h f.1 f.2 (by rw [structGetField_cons, if_pos rfl]), ?_⟩
      intro name x hget
      have hmem : name ∈ fs.map (·.1) := exists_structGetField.mp ⟨x, hget⟩
      refine h name x ?_
      rw [structGetField_cons, if_neg, hget]
      rintro rfl
      exact hnodup.1 hmem

theorem forall₂_fields (hnodup : (fs.map (·.1)).Nodup) :
    List.Forall₂ (fun f e => e.1 = f.1 ∧ P f.1 f.2 e.2) fs rs ↔
      rs.map (·.1) = fs.map (·.1) ∧
        ∀ name x, structGetField fs name = some x → ∃ z, structGetField rs name = some z ∧ P name x z := by
  induction fs generalizing rs with
  | nil => simp [structGetField]
  | cons f fs ih =>
    rw [List.map_cons, List.nodup_cons] at hnodup
    cases rs with
    | nil => simp
    | cons e rs =>
      rw [List.forall₂_cons, ih hnodup.2, List.map_cons, List.map_cons, List.cons.injEq]
      constructor
      · rintro ⟨⟨hname, hP⟩, hnames, hfs⟩
        refine ⟨⟨hname, hnames⟩, ?_⟩
        intro name x hget
        rw [structGetField_cons] at hget ⊢
        rw [hname]
        split at hget
        · rename_i heq
          cases hget
          rw [if_pos heq]
          exact ⟨e.2, rfl, heq ▸ hP⟩
        · rename_i hne
          rw [if_neg hne]
          exact hfs name x hget
      · rintro ⟨⟨hname, hnames⟩, h⟩
        obtain ⟨z, hz, hP⟩ := h f.1 f.2 (by rw [structGetField_cons, if_pos rfl])
        rw [structGetField_cons, if_pos hname] at hz
        cases hz
        refine ⟨⟨hname, hP⟩, hnames, ?_⟩
        intro name x hget
        have hne : f.1 ≠ name := by
          rintro rfl
          exact hnodup.1 (exists_structGetField.mp ⟨x, hget⟩)
        have hfs := h name x (by rw [structGetField_cons, if_neg hne, hget])
        rwa [structGetField_cons, hname, if_neg hne] at hfs

theorem exists_forall₂ :
    (∃ rs : List (String × Value D), List.Forall₂ (fun f e => e.1 = f.1 ∧ P f.1 f.2 e.2) fs rs) ↔ ∀ f ∈ fs, ∃ z, P f.1 f.2 z := by
  induction fs with
  | nil => simp
  | cons f fs ih =>
    rw [List.forall_mem_cons, ← ih]
    constructor
    · rintro ⟨rs, h⟩
      cases h with
      | cons hf hfs => exact ⟨⟨_, hf.2⟩, _, hfs⟩
    · rintro ⟨⟨z, hz⟩, rs, hfs⟩
      exact ⟨(f.1, z) :: rs, .cons ⟨rfl, hz⟩ hfs⟩

theorem sameNames_iff (hfs : (fs.map (·.1)).Nodup) (hgs : (gs.map (·.1)).Nodup) :
    SameNames fs gs ↔ gs.length = fs.length ∧ ∀ f ∈ fs, ∃ y, structGetField gs f.1 = some y := by
  have hsub : (∀ f ∈ fs, ∃ y, structGetField gs f.1 = some y) ↔ fs.map (·.1) ⊆ gs.map (·.1) := by
    simp only [exists_structGetField]
    exact List.forall_mem_map.symm
  rw [hsub]
  constructor
  · intro h
    have hperm : List.Perm (fs.map (·.1)) (gs.map (·.1)) := (List.perm_ext_iff_of_nodup hfs hgs).mpr h
    refine ⟨?_, hperm.subset⟩
    simpa using hperm.length_eq.symm
  · rintro ⟨hlength, hsubset⟩
    have hperm := (List.subperm_of_subset hfs hsubset).perm_of_length_le (by simp [hlength])
    exact fun name => hperm.mem_iff

end

/-! ### The fields of the implementation -/

omit [Double D] in
theorem fieldResult_iff : fieldResult handled = .ok r ↔ handled = some (.ok r) :=
  ⟨fieldResult_eq_ok, fun h => h ▸ rfl⟩

omit [Double D] in
theorem field_bind_eq_ok {name : String} {rest : Except Error (List (String × Value D))} :
    (do let z ← fieldResult handled; return (name, z) :: (← rest)) = .ok rs ↔
      ∃ z rs', handled = some (.ok z) ∧ rest = .ok rs' ∧ rs = (name, z) :: rs' := by
  simp only [bind_eq_ok, fieldResult_iff]
  constructor
  · rintro ⟨z, hz, rs', hrs, h⟩
    cases h
    exact ⟨z, rs', hz, hrs, rfl⟩
  · rintro ⟨z, rs', hz, hrs, rfl⟩
    exact ⟨z, hz, rs', hrs, rfl⟩

omit [Double D] in
theorem forall₂_cons_fields {P : String → Value D → Value D → Prop} {name : String} {x : Value D} :
    List.Forall₂ (fun f e => e.1 = f.1 ∧ P f.1 f.2 e.2) ((name, x) :: fs) rs ↔
      ∃ z rs', P name x z ∧ List.Forall₂ (fun f e => e.1 = f.1 ∧ P f.1 f.2 e.2) fs rs' ∧ rs = (name, z) :: rs' := by
  rw [List.forall₂_cons_left_iff]
  constructor
  · rintro ⟨⟨name', z⟩, rs', ⟨rfl, hz⟩, hrs, rfl⟩
    exact ⟨z, rs', hz, hrs, rfl⟩
  · rintro ⟨z, rs', hz, hrs, rfl⟩
    exact ⟨(name, z), rs', ⟨rfl, hz⟩, hrs, rfl⟩

omit [Double D] in
theorem nil_eq_ok : (.ok [] : Except Error (List (String × Value D))) = .ok rs ↔ rs = [] :=
  ⟨fun h => (Except.ok.inj h).symm, fun h => h ▸ rfl⟩

theorem structFields_eq_ok : structFields v fs gs = .ok rs ↔
    List.Forall₂ (fun f e => e.1 = f.1 ∧ ∃ y, structGetField gs f.1 = some y ∧ binaryOpImpl v f.2 y = some (.ok e.2)) fs rs := by
  induction fs generalizing rs with
  | nil => rw [structFields, List.forall₂_nil_left_iff, nil_eq_ok]
  | cons f fs ih =>
    obtain ⟨name, x⟩ := f
    rw [forall₂_cons_fields (P := fun name x z => ∃ y, structGetField gs name = some y ∧ binaryOpImpl v x y = some (.ok z)),
      structFields, structGetField_eq]
    cases hfind : gs.find? (·.1 == name) with
    | none => simp
    | some g => simp only [field_bind_eq_ok, ih, Option.map_some, Option.some.injEq, exists_eq_left']

theorem scalarRightFields_eq_ok : scalarRightFields v fs b = .ok rs ↔
    List.Forall₂ (fun f e => e.1 = f.1 ∧ binaryOpImpl v f.2 b = some (.ok e.2)) fs rs := by
  induction fs generalizing rs with
  | nil => rw [scalarRightFields, List.forall₂_nil_left_iff, nil_eq_ok]
  | cons f fs ih =>
    obtain ⟨name, x⟩ := f
    rw [forall₂_cons_fields (P := fun _ x z => binaryOpImpl v x b = some (.ok z)), scalarRightFields, field_bind_eq_ok]
    simp only [ih]

theorem scalarLeftFields_eq_ok : scalarLeftFields v a gs = .ok rs ↔
    List.Forall₂ (fun g e => e.1 = g.1 ∧ binaryOpScalarLeft v a g.2 = some (.ok e.2)) gs rs := by
  induction gs generalizing rs with
  | nil => rw [scalarLeftFields, List.forall₂_nil_left_iff, nil_eq_ok]
  | cons g gs ih =>
    obtain ⟨name, y⟩ := g
    rw [forall₂_cons_fields (P := fun _ y z => binaryOpScalarLeft v a y = some (.ok z)), scalarLeftFields, field_bind_eq_ok]
    simp only [ih]

omit [Double D] in
theorem map_struct_eq_ok {fields : Except Error (List (String × Value D))} :
    (some (fields.map .struct) : Handled D) = some (.ok r) ↔ ∃ rs, r = .struct rs ∧ fields = .ok rs := by
  cases fields with
  | error e => simp [Except.map]
  | ok rs => simp [Except.map, eq_comm]

theorem structs_eq_ok (hv : isOrdering v = false) : binaryOpImpl v (.struct fs) (.struct gs) = some (.ok r) ↔
    ∃ rs, r = .struct rs ∧ gs.length = fs.length ∧
      List.Forall₂ (fun f e => e.1 = f.1 ∧ ∃ y, structGetField gs f.1 = some y ∧ binaryOpImpl v f.2 y = some (.ok e.2)) fs rs := by
  simp only [binaryOpImpl, hv, Bool.false_eq_true, if_false, Option.some.injEq, bind_eq_ok, structFields_eq_ok]
  constructor
  · rintro ⟨rs, hrs, h⟩
    split at h
    · cases h
    · rename_i hlength
      cases h
      exact ⟨rs, rfl, not_not.mp hlength, hrs⟩
  · rintro ⟨rs, rfl, hlength, hrs⟩
    exact ⟨rs, hrs, by rw [if_neg (not_not.mpr hlength)]⟩

theorem right_eq_ok (hv : isOrdering v = false) (hb : isStruct b = false) : binaryOpImpl v (.struct fs) b = some (.ok r) ↔
    isStructScalarOperand b = true ∧
      ∃ rs, r = .struct rs ∧ List.Forall₂ (fun f e => e.1 = f.1 ∧ binaryOpImpl v f.2 b = some (.ok e.2)) fs rs := by
  have heq : binaryOpImpl v (.struct fs) b =
      if !isStructScalarOperand b then typeError "Struct arithmetic requires scalar-compatible operands"
      else some ((scalarRightFields v fs b).map .struct) := by
    cases b with
    | struct => cases hb
    | number | bool | string | null | timestamp | duration | array | int64 =>
      simp only [binaryOpImpl, hv, Bool.false_eq_true, if_false]
  rw [heq]
  cases hscalar : isStructScalarOperand b with
  | false => simp [typeError]
  | true => simp only [Bool.not_true, Bool.false_eq_true, if_false, map_struct_eq_ok, scalarRightFields_eq_ok, true_and]

theorem binaryOpImpl_scalarLeft (ha : isStruct a = false) : binaryOpImpl v a b = binaryOpScalarLeft v a b := by
  cases a with
  | struct => cases ha
  | number | bool | string | null | timestamp | duration | array | int64 => rfl

theorem left_eq_ok (hv : isOrdering v = false) (ha : isStruct a = false) : binaryOpImpl v a (.struct gs) = some (.ok r) ↔
    isStructScalarOperand a = true ∧
      ∃ rs, r = .struct rs ∧ List.Forall₂ (fun g e => e.1 = g.1 ∧ binaryOpImpl v a g.2 = some (.ok e.2)) gs rs := by
  simp only [binaryOpImpl_scalarLeft ha]
  rw [binaryOpScalarLeft, if_neg (by simp [hv])]
  cases hscalar : isStructScalarOperand a with
  | false => simp [typeError]
  | true => simp only [Bool.not_true, Bool.false_eq_true, if_false, map_struct_eq_ok, scalarLeftFields_eq_ok, true_and]

theorem scalars_eq (ha : isStruct a = false) (hb : isStruct b = false) : binaryOpImpl v a b = scalarBinaryOp v a b := by
  rw [binaryOpImpl_scalarLeft ha]
  cases b with
  | struct => cases hb
  | number | bool | string | null | timestamp | duration | array | int64 => rfl

structure ByNames (v : ValOp) (a b : Value D) (shape : Prop) (names : List String)
    (operands : String → Option (Value D × Value D)) : Prop where
  succeeds : (∃ r, binaryOpImpl v a b = some (.ok r)) ↔
    shape ∧ ∀ name x y, operands name = some (x, y) → ∃ z, binaryOpImpl v x y = some (.ok z)
  result : ∀ r, binaryOpImpl v a b = some (.ok r) → ∃ rs, r = .struct rs ∧ rs.map (·.1) = names ∧
    ∀ name x y, operands name = some (x, y) → ∃ z, structGetField rs name = some z ∧ binaryOpImpl v x y = some (.ok z)

theorem structs_byNames (hv : isOrdering v = false) (hfs : (fs.map (·.1)).Nodup) (hgs : (gs.map (·.1)).Nodup) :
    ByNames v (.struct fs) (.struct gs) (SameNames fs gs) (fs.map (·.1)) (bothFields fs gs) := by
  have hboth : ∀ name x y, bothFields fs gs name = some (x, y) ↔
      structGetField fs name = some x ∧ structGetField gs name = some y := by
    intro name x y
    simp only [bothFields, Option.bind_eq_some_iff, Option.map_eq_some_iff, Prod.mk.injEq]
    constructor
    · rintro ⟨x', hx, y', hy, rfl, rfl⟩
      exact ⟨hx, hy⟩
    · rintro ⟨hx, hy⟩
      exact ⟨x, hx, y, hy, rfl, rfl⟩
  constructor
  · have hexists : (∃ r, binaryOpImpl v (.struct fs) (.struct gs) = some (.ok r)) ↔
        gs.length = fs.length ∧ ∀ f ∈ fs, ∃ z y, structGetField gs f.1 = some y ∧ binaryOpImpl v f.2 y = some (.ok z) := by
      simp only [structs_eq_ok hv, ← exists_forall₂ (P := fun name x z => ∃ y, structGetField gs name = some y ∧
        binaryOpImpl v x y = some (.ok z))]
      exact ⟨fun ⟨_, rs, _, hlength, hrs⟩ => ⟨hlength, rs, hrs⟩, fun ⟨hlength, rs, hrs⟩ => ⟨_, rs, rfl, hlength, hrs⟩⟩
    rw [hexists, sameNames_iff hfs hgs, and_assoc]
    refine and_congr_right fun _ => ?_
    rw [forall_fields hfs (Q := fun name x => ∃ z y, structGetField gs name = some y ∧ binaryOpImpl v x y = some (.ok z)),
      forall_fields hfs (Q := fun name _ => ∃ y, structGetField gs name = some y)]
    constructor
    · intro h
      refine ⟨?_, ?_⟩
      · intro name x hx
        obtain ⟨z, y, hy, -⟩ := h name x hx
        exact ⟨y, hy⟩
      · intro name x y hxy
        obtain ⟨hx, hy⟩ := (hboth name x y).mp hxy
        obtain ⟨z, y', hy', hz⟩ := h name x hx
        cases hy.symm.trans hy'
        exact ⟨z, hz⟩
    · rintro ⟨hnames, h⟩ name x hx
      obtain ⟨y, hy⟩ := hnames name x hx
      obtain ⟨z, hz⟩ := h name x y ((hboth name x y).mpr ⟨hx, hy⟩)
      exact ⟨z, y, hy, hz⟩
  · intro r hr
    obtain ⟨rs, rfl, -, hrs⟩ := (structs_eq_ok hv).mp hr
    obtain ⟨hnames, hall⟩ := (forall₂_fields hfs (P := fun name x z => ∃ y, structGetField gs name = some y ∧
      binaryOpImpl v x y = some (.ok z))).mp hrs
    refine ⟨rs, rfl, hnames, ?_⟩
    intro name x y hxy
    obtain ⟨hx, hy⟩ := (hboth name x y).mp hxy
    obtain ⟨z, hget, y', hy', hz⟩ := hall name x hx
    cases hy.symm.trans hy'
    exact ⟨z, hget, hz⟩

theorem scalar_byNames (hfs : (fs.map (·.1)).Nodup)
    (h : ∀ r, binaryOpImpl v a b = some (.ok r) ↔
      ∃ rs, r = .struct rs ∧ List.Forall₂ (fun f e => e.1 = f.1 ∧ binaryOpImpl v (pair f.2).1 (pair f.2).2 = some (.ok e.2)) fs rs) :
    ByNames v a b True (fs.map (·.1)) fun name => (structGetField fs name).map pair := by
  have hpair : ∀ name x y, (structGetField fs name).map pair = some (x, y) ↔
      ∃ w, structGetField fs name = some w ∧ pair w = (x, y) := fun name x y => Option.map_eq_some_iff
  constructor
  · have hexists : (∃ r, binaryOpImpl v a b = some (.ok r)) ↔
        ∀ f ∈ fs, ∃ z, binaryOpImpl v (pair f.2).1 (pair f.2).2 = some (.ok z) := by
      simp only [h, ← exists_forall₂ (P := fun _ w z => binaryOpImpl v (pair w).1 (pair w).2 = some (.ok z))]
      exact ⟨fun ⟨_, rs, _, hrs⟩ => ⟨rs, hrs⟩, fun ⟨rs, hrs⟩ => ⟨_, rs, rfl, hrs⟩⟩
    rw [hexists, true_and, forall_fields hfs (Q := fun _ w => ∃ z, binaryOpImpl v (pair w).1 (pair w).2 = some (.ok z))]
    constructor
    · intro hall name x y hxy
      obtain ⟨w, hw, hxy⟩ := (hpair name x y).mp hxy
      have hz := hall name w hw
      rwa [hxy] at hz
    · intro hall name w hw
      exact hall name (pair w).1 (pair w).2 ((hpair _ _ _).mpr ⟨w, hw, rfl⟩)
  · intro r hr
    obtain ⟨rs, rfl, hrs⟩ := (h r).mp hr
    obtain ⟨hnames, hall⟩ := (forall₂_fields hfs (P := fun _ w z => binaryOpImpl v (pair w).1 (pair w).2 = some (.ok z))).mp hrs
    refine ⟨rs, rfl, hnames, ?_⟩
    intro name x y hxy
    obtain ⟨w, hw, hxy⟩ := (hpair name x y).mp hxy
    have hz := hall name w hw
    rwa [hxy] at hz

theorem fieldwise_iff {shape : Prop} {names : List String} {operands : String → Option (Value D × Value D)}
    (hop : arithValOp op = some v) (h : ByNames v a b shape names operands) (hmixes : mixes a b = false) :
    Fieldwise op a b shape names operands ↔
      ¬ ((∃ name x y, operands name = some (x, y) ∧ mixes x y = true) ∧ ∃ r, binaryOpImpl v a b = some (.ok r)) := by
  simp only [Fieldwise, arithmeticOp_eq_ok hop, hmixes, true_and]
  constructor
  · rintro ⟨hiff, -⟩ ⟨⟨name, x, y, hoperands, hxy⟩, hr⟩
    obtain ⟨z, hfalse, -⟩ := (hiff.mp hr).2 name x y hoperands
    rw [hxy] at hfalse
    cases hfalse
  · intro hno
    have hfalse : (∃ r, binaryOpImpl v a b = some (.ok r)) → ∀ name x y, operands name = some (x, y) → mixes x y = false := by
      intro hr name x y hoperands
      by_contra hxy
      exact hno ⟨⟨name, x, y, hoperands, by simpa using hxy⟩, hr⟩
    refine ⟨⟨?_, ?_⟩, ?_⟩
    · intro hr
      obtain ⟨hshape, hall⟩ := h.succeeds.mp hr
      refine ⟨hshape, ?_⟩
      intro name x y hoperands
      obtain ⟨z, hz⟩ := hall name x y hoperands
      exact ⟨z, hfalse hr name x y hoperands, hz⟩
    · rintro ⟨hshape, hall⟩
      refine h.succeeds.mpr ⟨hshape, ?_⟩
      intro name x y hoperands
      obtain ⟨z, -, hz⟩ := hall name x y hoperands
      exact ⟨z, hz⟩
    · intro r hr
      obtain ⟨rs, hrs, hnames, hall⟩ := h.result r hr
      refine ⟨rs, hrs, hnames, ?_⟩
      intro name x y hoperands
      obtain ⟨z, hget, hz⟩ := hall name x y hoperands
      exact ⟨z, hget, hfalse ⟨r, hr⟩ name x y hoperands, hz⟩

theorem fieldwise_mixed_iff {shape : Prop} {names : List String} {operands : String → Option (Value D × Value D)}
    (hop : arithValOp op = some v) (hmixes : mixes a b = true) :
    Fieldwise op a b shape names operands ↔
      ¬ (shape ∧ ∀ name x y, operands name = some (x, y) → ∃ r, arithmeticOp op x y = .ok r) := by
  have hno : ∀ r, arithmeticOp op a b ≠ .ok r := by
    intro r hr
    rw [arithmeticOp_eq_ok hop, hmixes] at hr
    cases hr.1
  simp only [Fieldwise, hno, exists_false, false_iff, false_imp_iff, implies_true, and_true]

theorem exists_of_operable (hv : isOrdering v = false) (h : Operable v a b) : ∃ r, binaryOpImpl v a b = some (.ok r) := by
  induction h with
  | scalar ha hb h => exact ⟨_, (scalars_eq ha hb).trans h⟩
  | @structs fs gs hlength hnames h ih =>
    have hall : ∀ f ∈ fs, ∃ z y, structGetField gs f.1 = some y ∧ binaryOpImpl v f.2 y = some (.ok z) := by
      intro f hf
      obtain ⟨y, hy⟩ := hnames f hf
      obtain ⟨z, hz⟩ := ih f hf y hy
      exact ⟨z, y, hy, hz⟩
    obtain ⟨rs, hrs⟩ := (exists_forall₂ (P := fun name x z => ∃ y, structGetField gs name = some y ∧
      binaryOpImpl v x y = some (.ok z))).mpr hall
    exact ⟨_, (structs_eq_ok hv).mpr ⟨rs, rfl, hlength, hrs⟩⟩
  | @left fs b hb hscalar h ih =>
    obtain ⟨rs, hrs⟩ := (exists_forall₂ (P := fun _ x z => binaryOpImpl v x b = some (.ok z))).mpr ih
    exact ⟨_, (right_eq_ok hv hb).mpr ⟨hscalar, rs, rfl, hrs⟩⟩
  | @right gs a ha hscalar h ih =>
    obtain ⟨rs, hrs⟩ := (exists_forall₂ (P := fun _ y z => binaryOpImpl v a y = some (.ok z))).mpr ih
    exact ⟨_, (left_eq_ok hv ha).mpr ⟨hscalar, rs, rfl, hrs⟩⟩

mutual

theorem operable_scalarLeft (hv : isOrdering v = false) (ha : isStruct a = false) :
    ∀ b r : Value D, binaryOpImpl v a b = some (.ok r) → Operable v a b
  | .struct gs, r, h => by
    obtain ⟨hscalar, rs, -, hrs⟩ := (left_eq_ok hv ha).mp h
    exact .right ha hscalar (operable_scalarLeftFields hv ha gs
      (exists_forall₂ (P := fun _ y z => binaryOpImpl v a y = some (.ok z)).mp ⟨rs, hrs⟩))
  | .number _, _, h => .scalar ha rfl ((scalars_eq ha rfl).symm.trans h)
  | .bool _, _, h => .scalar ha rfl ((scalars_eq ha rfl).symm.trans h)
  | .string _, _, h => .scalar ha rfl ((scalars_eq ha rfl).symm.trans h)
  | .null, _, h => .scalar ha rfl ((scalars_eq ha rfl).symm.trans h)
  | .timestamp _, _, h => .scalar ha rfl ((scalars_eq ha rfl).symm.trans h)
  | .duration _, _, h => .scalar ha rfl ((scalars_eq ha rfl).symm.trans h)
  | .array _, _, h => .scalar ha rfl ((scalars_eq ha rfl).symm.trans h)
  | .int64 _, _, h => .scalar ha rfl ((scalars_eq ha rfl).symm.trans h)

theorem operable_scalarLeftFields (hv : isOrdering v = false) (ha : isStruct a = false) :
    ∀ gs : List (String × Value D), (∀ g ∈ gs, ∃ z, binaryOpImpl v a g.2 = some (.ok z)) → ∀ g ∈ gs, Operable v a g.2
  | [], _ => by simp
  | (name, y) :: gs, h => by
    rw [List.forall_mem_cons] at h ⊢
    obtain ⟨⟨z, hz⟩, hgs⟩ := h
    exact ⟨operable_scalarLeft hv ha y z hz, operable_scalarLeftFields hv ha gs hgs⟩

end

mutual

theorem operable_of_ok (hv : isOrdering v = false) : ∀ a b r : Value D, binaryOpImpl v a b = some (.ok r) → Operable v a b
  | .struct fs, b, r, h => by
    cases hb : isStruct b with
    | true =>
      cases b with
      | struct gs =>
        obtain ⟨rs, -, hlength, hrs⟩ := (structs_eq_ok hv).mp h
        have hall := exists_forall₂ (P := fun name x z => ∃ y, structGetField gs name = some y ∧
          binaryOpImpl v x y = some (.ok z)).mp ⟨rs, hrs⟩
        refine .structs hlength ?_ (operable_fields hv fs (fun f y => structGetField gs f.1 = some y) ?_)
        · intro f hf
          obtain ⟨z, y, hy, -⟩ := hall f hf
          exact ⟨y, hy⟩
        · intro f hf y hy
          obtain ⟨z, y', hy', hz⟩ := hall f hf
          cases hy.symm.trans hy'
          exact ⟨z, hz⟩
      | number | bool | string | null | timestamp | duration | array | int64 => cases hb
    | false =>
      obtain ⟨hscalar, rs, -, hrs⟩ := (right_eq_ok hv hb).mp h
      have hall := exists_forall₂ (P := fun _ x z => binaryOpImpl v x b = some (.ok z)).mp ⟨rs, hrs⟩
      refine .left hb hscalar fun f hf => operable_fields hv fs (fun _ y => y = b) ?_ f hf b rfl
      rintro f hf _ rfl
      exact hall f hf
  | .number _, b, r, h => operable_scalarLeft hv rfl b r h
  | .bool _, b, r, h => operable_scalarLeft hv rfl b r h
  | .string _, b, r, h => operable_scalarLeft hv rfl b r h
  | .null, b, r, h => operable_scalarLeft hv rfl b r h
  | .timestamp _, b, r, h => operable_scalarLeft hv rfl b r h
  | .duration _, b, r, h => operable_scalarLeft hv rfl b r h
  | .array _, b, r, h => operable_scalarLeft hv rfl b r h
  | .int64 _, b, r, h => operable_scalarLeft hv rfl b r h

theorem operable_fields (hv : isOrdering v = false) : ∀ (fs : List (String × Value D)) (beside : String × Value D → Value D → Prop),
    (∀ f ∈ fs, ∀ y, beside f y → ∃ z, binaryOpImpl v f.2 y = some (.ok z)) → ∀ f ∈ fs, ∀ y, beside f y → Operable v f.2 y
  | [], _, _ => by simp
  | (name, x) :: fs, beside, h => by
    rw [List.forall_mem_cons] at h ⊢
    refine ⟨?_, operable_fields hv fs beside h.2⟩
    intro y hy
    obtain ⟨z, hz⟩ := h.1 y hy
    exact operable_of_ok hv x y z hz

end

/-- All fields are int64 values, and the operation on each with the scalar has a result. -/
def AllCombine (combine : Int64 → Handled D) (fs : List (String × Value D)) : Prop :=
  ∀ f ∈ fs, ∃ j r, f.2 = .int64 j ∧ combine j = some (.ok r)

theorem exists_int64_right (hop : arithValOp op = some v) (i : Int64) (x : Value D) :
    (∃ r, arithmeticOp op x (.int64 i) = .ok r) ↔ ∃ j r, x = .int64 j ∧ (int64BinaryOp v j i : Handled D) = some (.ok r) := by
  simp only [arithmeticOp_eq_ok hop]
  cases x with
  | int64 j =>
    constructor
    · rintro ⟨r, -, hr⟩
      exact ⟨j, r, rfl, hr⟩
    · rintro ⟨j', r, hj, hr⟩
      cases hj
      exact ⟨r, rfl, hr⟩
  | struct | number | bool | string | null | timestamp | duration | array =>
    simp [mixes, binaryOpImpl, binaryOpScalarLeft, scalarBinaryOp, isTemporal, typeError]

theorem exists_int64_left (hop : arithValOp op = some v) (i : Int64) (x : Value D) :
    (∃ r, arithmeticOp op (.int64 i) x = .ok r) ↔ ∃ j r, x = .int64 j ∧ (int64BinaryOp v i j : Handled D) = some (.ok r) := by
  simp only [arithmeticOp_eq_ok hop]
  cases x with
  | int64 j =>
    constructor
    · rintro ⟨r, -, hr⟩
      exact ⟨j, r, rfl, hr⟩
    · rintro ⟨j', r, hj, hr⟩
      cases hj
      exact ⟨r, rfl, hr⟩
  | struct | number | bool | string | null | timestamp | duration | array =>
    simp [mixes, binaryOpImpl, binaryOpScalarLeft, scalarBinaryOp, isTemporal, typeError]

theorem allCombine_iff {combine : Int64 → Handled D} (hfs : (fs.map (·.1)).Nodup)
    (h : ∀ w, (∃ r, arithmeticOp op (pair w).1 (pair w).2 = .ok r) ↔ ∃ j r, w = .int64 j ∧ combine j = some (.ok r)) :
    (∀ name x y, (structGetField fs name).map pair = some (x, y) → ∃ r, arithmeticOp op x y = .ok r) ↔ AllCombine combine fs := by
  rw [AllCombine, forall_fields hfs (Q := fun _ w => ∃ j r, w = .int64 j ∧ combine j = some (.ok r))]
  constructor
  · intro hall name w hw
    exact (h w).mp (hall name (pair w).1 (pair w).2 (by rw [hw]; rfl))
  · intro hall name x y hxy
    obtain ⟨w, hw, hpair⟩ := Option.map_eq_some_iff.mp hxy
    have hr := (h w).mpr (hall name w hw)
    rwa [hpair] at hr

theorem fieldwise_scalar (hop : arithValOp op = some v)
    (h : ByNames v a b True (fs.map (·.1)) fun name => (structGetField fs name).map pair) (hmixes : mixes a b = false)
    (hpair : ∀ w, mixes (pair w).1 (pair w).2 = false) :
    Fieldwise op a b True (fs.map (·.1)) fun name => (structGetField fs name).map pair := by
  rw [fieldwise_iff hop h hmixes]
  rintro ⟨⟨name, x, y, hxy, htrue⟩, -⟩
  obtain ⟨w, -, hw⟩ := Option.map_eq_some_iff.mp hxy
  have hfalse := hpair w
  rw [hw, htrue] at hfalse
  cases hfalse

theorem right_byNames (hv : isOrdering v = false) (hscalar : isStructScalarOperand b = true) (hb : isStruct b = false)
    (hfs : (fs.map (·.1)).Nodup) :
    ByNames v (.struct fs) b True (fs.map (·.1)) fun name => (structGetField fs name).map (·, b) := by
  refine scalar_byNames hfs ?_
  intro r
  rw [right_eq_ok hv hb, hscalar]
  exact and_iff_right rfl

theorem left_byNames (hv : isOrdering v = false) (hscalar : isStructScalarOperand a = true) (ha : isStruct a = false)
    (hgs : (gs.map (·.1)).Nodup) :
    ByNames v a (.struct gs) True (gs.map (·.1)) fun name => (structGetField gs name).map (a, ·) := by
  refine scalar_byNames hgs ?_
  intro r
  rw [left_eq_ok hv ha, hscalar]
  exact and_iff_right rfl

/-- The operators work field by field on structs with distinct names, except that two structs have a result also where
    an int64 of the one meets a struct in the other, and an int64 beside a struct is rejected also where all fields
    would combine with it. -/
theorem fieldwise_exact_iff (hop : arithValOp op = some v) (hfs : (fs.map (·.1)).Nodup) :
    (∀ gs : List (String × Value D), (gs.map (·.1)).Nodup →
      (StructsFieldwise op fs gs ↔ ¬ (MixedField fs gs ∧ Operable v (.struct fs) (.struct gs)))) ∧
    ∀ s : Value D, isStructScalarOperand s = true →
      (RightFieldwise op fs s ↔ ∀ i, s = .int64 i → ¬ AllCombine (fun j => int64BinaryOp v j i) fs) ∧
      (LeftFieldwise op s fs ↔ ∀ i, s = .int64 i → ¬ AllCombine (fun j => int64BinaryOp v i j) fs) := by
  have hv := isOrdering_of_arith hop
  refine ⟨?_, ?_⟩
  · intro gs hgs
    rw [StructsFieldwise, fieldwise_iff hop (structs_byNames hv hfs hgs) rfl]
    refine not_congr (and_congr Iff.rfl ?_)
    exact ⟨fun ⟨r, hr⟩ => operable_of_ok hv _ _ r hr, exists_of_operable hv⟩
  · intro s hs
    have hstruct : isStruct s = false := by cases s <;> first | rfl | cases hs
    by_cases hint : ∃ i, s = .int64 i
    · obtain ⟨i, rfl⟩ := hint
      simp only [Value.int64.injEq, forall_eq']
      rw [RightFieldwise, fieldwise_mixed_iff hop rfl, LeftFieldwise, fieldwise_mixed_iff hop rfl,
        allCombine_iff hfs (exists_int64_right hop i), allCombine_iff hfs (exists_int64_left hop i), true_and, true_and]
      exact ⟨Iff.rfl, Iff.rfl⟩
    · have hmixes : ∀ x, mixes x s = false ∧ mixes s x = false := by
        intro x
        cases s with
        | int64 i => exact absurd ⟨i, rfl⟩ hint
        | struct | bool | string | null | array => cases hs
        | number | timestamp | duration => cases x <;> exact ⟨rfl, rfl⟩
      refine ⟨iff_of_true ?_ ?_, iff_of_true ?_ ?_⟩
      · exact fieldwise_scalar hop (right_byNames hv hs hstruct hfs) (hmixes _).1 fun w => (hmixes w).1
      · exact fun i hi => absurd ⟨i, hi⟩ hint
      · exact fieldwise_scalar hop (left_byNames hv hs hstruct hfs) (hmixes _).2 fun w => (hmixes w).2
      · exact fun i hi => absurd ⟨i, hi⟩ hint

theorem fieldwise_exact_duration :
    RightFieldwise .star [("d", .duration 2)] (.number 3 : Value Int) ↔
      ∀ i, (.number 3 : Value Int) = .int64 i → ¬ AllCombine (fun j => int64BinaryOp .mul j i) [("d", (.duration 2 : Value Int))] :=
  ((fieldwise_exact_iff rfl (by decide)).2 _ rfl).1

theorem int64_beside_struct :
    ¬ RightFieldwise .plus [("x", .int64 1)] (.int64 2 : Value Int) ∧
      ¬ StructsFieldwise .plus [("f", .struct [("x", .int64 1)])] [("f", (.int64 2 : Value Int))] := by
  have hop : arithValOp .plus = some ValOp.add := rfl
  constructor
  · rw [RightFieldwise, fieldwise_mixed_iff hop rfl, allCombine_iff (by decide) (exists_int64_right hop 2), not_not]
    refine ⟨trivial, ?_⟩
    intro f hf
    rw [List.mem_singleton] at hf
    subst hf
    exact ⟨1, .int64 3, rfl, rfl⟩
  · rw [StructsFieldwise, fieldwise_iff hop (structs_byNames rfl (by decide) (by decide)) rfl, not_not]
    exact ⟨⟨"f", .struct [("x", .int64 1)], .int64 2, rfl, rfl⟩, .struct [("f", .struct [("x", .int64 3)])], rfl⟩

end Cxpr.StructArithmetic
