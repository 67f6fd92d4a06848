import Cxpr.Eval.Scalar
import Cxpr.Model.Children
import Cxpr.OrderedDouble

/-! The bound of a dynamic lookback (`src/model/lookback/collect.c`), and the index that the resolver of a session takes
    (`src/model/session.c`). -/

namespace Cxpr.Model
open Ir (sizeMax lookbackLiteralOffset)
variable {D χ : Type}

/-! ### Bounds -/

/-- A `cxpr_model_constant`, as far as a bound depends on it. -/
structure DeclaredConstant (D : Type) where
  name : String
  expr : Option (Ast D)
  isCallParam : Bool

/-- A `cxpr_model_binding`, as far as a bound depends on it: a state with its default, an update or an expression. -/
structure DeclaredBinding (D : Type) where
  name : String
  expr : Option (Ast D)

/-- The numbers `min` and `max` of a `cxpr_model_metadata` of a parameter. -/
structure ParamMetadata (D : Type) where
  targetName : String
  min : Option D
  max : Option D

/-- A `cxpr_model`, as far as a bound depends on it. -/
structure Declared (D : Type) where
  constants : List (DeclaredConstant D) := []
  bindings : List (DeclaredBinding D) := []
  metadata : List (ParamMetadata D) := []

namespace Declared

def constant? (m : Declared D) (name : String) : Option (DeclaredConstant D) := m.constants.find? (·.name == name)

def binding? (m : Declared D) (name : String) : Option (DeclaredBinding D) := m.bindings.find? (·.name == name)

def limits (m : Declared D) (name : String) : Option D × Option D :=
  ((m.metadata.find? (·.targetName == name)).bind (·.min), (m.metadata.find? (·.targetName == name)).bind (·.max))

end Declared

abbrev Bounding := Except (Option Error)

def boundError {α : Type} (message : String) : Bounding α := .error (some ⟨.syntaxError, message⟩)

section
variable [Double D]

/-- A `size_t` cast. Of a number out of its range C says nothing, and there is no bound. -/
def sizeCast (value : D) : Bounding Nat :=
  if Double.lt value (Double.ofNat sizeMax) then .ok (Double.toSize value) else .error none

/-- The bound of a call parameter in `cxpr_model_lookback_bound_impl`. -/
def callParamBound (limits : Option D × Option D) (expr : Option (Ast D)) : Bounding Nat :=
  match limits with
  | (some minimum, some maximum) =>
    if !Double.isfinite minimum || Double.lt minimum Double.zero || Double.ne (Double.floor minimum) minimum then
      boundError "dynamic lookback parameter min must be a non-negative integer"
    else if !Double.isfinite maximum || Double.lt maximum minimum || Double.ne (Double.floor maximum) maximum ||
        Double.gt maximum (Double.ofNat sizeMax) then
      boundError "dynamic lookback parameter max must be a finite integer >= min"
    else
      match expr with
      | some (.number value) =>
        if !Double.isfinite value || Double.ne (Double.floor value) value || Double.lt value minimum ||
            Double.gt value maximum then
          boundError "dynamic lookback parameter default must be within min and max"
        else sizeCast maximum
      | _ => boundError "dynamic lookback parameter default must be an integer literal"
  | _ => boundError "dynamic lookback parameter requires min and max metadata"

def binaryBound (op : BinaryOp) (right : Ast D) (leftBound rightBound : Nat) : Bounding Nat :=
  match op, right with
  | .plus, _ => if sizeMax - rightBound < leftBound then .error none else .ok (leftBound + rightBound)
  | .minus, _ => .ok leftBound
  | .star, _ =>
    if rightBound ≠ 0 ∧ sizeMax / rightBound < leftBound then .error none else .ok (leftBound * rightBound)
  | .slash, .number divisor =>
    if !Double.isfinite divisor || Double.le divisor Double.zero then .error none
    else sizeCast (Double.ceil (Double.div (Double.ofNat leftBound) divisor))
  | _, _ => .error none

/-- `cxpr_model_lookback_bound_impl`, with the depth that is left. -/
def lookbackBoundImpl (m : Declared D) : Nat → Ast D → Bounding Nat
  | 0, _ => .error none
  | depth + 1, index =>
    match index with
    | .number value =>
      if !Double.isfinite value || Double.lt value Double.zero || Double.gt value (Double.ofNat sizeMax) then .error none
      else sizeCast (Double.ceil value)
    | .param name =>
      match m.constant? name with
      | some c =>
        if c.isCallParam then callParamBound (m.limits name) c.expr
        else
          match c.expr with
          | some expr => lookbackBoundImpl m depth expr
          | none => .error none
      | none => .error none
    | .identifier name =>
      match (m.binding? name).bind (·.expr) with
      | some expr => lookbackBoundImpl m depth expr
      | none => .error none
    | .call name args _ =>
      match name, args with
      | "round", [arg] | "floor", [arg] | "ceil", [arg] => lookbackBoundImpl m depth arg
      | "max", arg :: args => do
        let bound ← lookbackBoundImpl m depth arg
        let bounds ← args.mapM (lookbackBoundImpl m depth)
        return bounds.foldl max bound
      | "min", arg :: args => do
        let bound ← lookbackBoundImpl m depth arg
        let bounds ← args.mapM (lookbackBoundImpl m depth)
        return bounds.foldl min bound
      | _, _ => .error none
    | .binary op left right => do
      let leftBound ← lookbackBoundImpl m depth left
      let rightBound ← lookbackBoundImpl m depth right
      binaryBound op right leftBound rightBound
    | _ => .error none

/-- `cxpr_model_lookback_bound`: the depth is at most 32. -/
def lookbackBound (m : Declared D) (index : Ast D) : Bounding Nat := lookbackBoundImpl m 33 index

/-- The offset that `cxpr_model_lookback_resolver` takes of an index with the given value. -/
def resolverOffset (index : Ast D) (value : D) : Option Nat :=
  lookbackLiteralOffset index <|>
    if !Double.isfinite value || Double.lt value Double.zero || Double.ne (Double.floor value) value ||
        Double.gt value (Double.ofNat 512) then none
    else some (Double.toSize value)

end

def historySpecAdd (specs : List (HistorySpec D)) (name : String) (target : Option (Ast D)) (depth : Nat) :
    List (HistorySpec D) :=
  if depth = 0 then specs
  else if specs.any (·.name == name) then
    specs.replaceF fun spec =>
      if spec.name == name then
        some { spec with
          depth := if spec.depth < depth then depth else spec.depth
          target := spec.target <|> target }
      else none
  else specs ++ [⟨name, target, depth⟩]

section
variable [Double D]

def indexOp (op : BinaryOp) (a b : D) : Option D :=
  match op with
  | .plus => some (Double.add a b)
  | .minus => some (Double.sub a b)
  | .star => some (Double.mul a b)
  | .slash => if Double.eq b Double.zero then none else some (Double.div a b)
  | _ => none

/-- `cxpr_min_n`. -/
def minOf (out : D) (args : List D) : D := args.foldl (fun out x => if Double.lt x out then x else out) out

/-- `cxpr_max_n`. -/
def maxOf (out : D) (args : List D) : D := args.foldl (fun out x => if Double.gt x out then x else out) out

/-- The functions of `cxpr_register_math` that an index may call. -/
def indexCall (name : String) (args : List D) : Option D :=
  match name, args with
  | "round", [a] => some (Double.round a)
  | "floor", [a] => some (Double.floor a)
  | "ceil", [a] => some (Double.ceil a)
  | "max", a :: as => some (maxOf a as)
  | "min", a :: as => some (minOf a as)
  | _, _ => none

omit [Double D] in
def numberOf : Option (Value D) → Option D
  | some (.number d) => some d
  | _ => none

mutual

def indexValue (env : Env D) : Ast D → Option D
  | .number v => some v
  | .param name => numberOf (env.param name)
  | .identifier name => numberOf (env.var name)
  | .binary op l r => (indexValue env l).bind fun a => (indexValue env r).bind (indexOp op a)
  | .call name args _ => (indexValues env args).bind (indexCall name)
  | _ => none

def indexValues (env : Env D) : List (Ast D) → Option (List D)
  | [] => some []
  | a :: as => (indexValue env a).bind fun v => (indexValues env as).map (v :: ·)

end

end
/-! ### Numbers below a bound -/

section
variable [OrderedDouble D] {a b : D} {m n : Nat}
open OrderedDouble (le_trans)

structure Below (a : D) (n : Nat) : Prop where
  size : n ≤ sizeMax
  le : Double.le a (Double.ofNat n) = true

theorem not_nan_zero : Double.isnan (Double.zero : D) = false := by simp [Double.isnan_eq]

theorem Below.not_nan (h : Below a n) : Double.isnan a = false := (OrderedDouble.not_nan_of_le h.le).1

theorem Below.mono (h : Below b n) (hle : Double.le a b = true) : Below a n := ⟨h.size, le_trans hle h.le⟩

theorem Below.weaken (h : Below a m) (hmn : m ≤ n) (hn : n ≤ sizeMax) : Below a n :=
  ⟨hn, le_trans h.le (OrderedDouble.ofNat_le hmn)⟩

theorem below_of_sizeCast (h : sizeCast a = .ok n) (hint : Double.eq (Double.floor a) a = true)
    (hpos : Double.le Double.zero a = true) : Below a n := by
  unfold sizeCast at h
  split at h
  · rename_i hlt
    cases h
    exact ⟨OrderedDouble.toSize_le_sizeMax hpos hlt, OrderedDouble.le_ofNat_toSize hint hpos hlt⟩
  · cases h

theorem below_of_sizeCast_ceil (h : sizeCast (Double.ceil a) = .ok n) (hpos : Double.le Double.zero a = true) :
    Below a n := by
  have hceil : Double.le a (Double.ceil a) = true := OrderedDouble.le_ceil (OrderedDouble.not_nan_of_le hpos).2
  have hpos' := le_trans hpos hceil
  have hlt : Double.lt (Double.ceil a) (Double.ofNat sizeMax) = true := by
    unfold sizeCast at h
    split at h
    · assumption
    · cases h
  exact (below_of_sizeCast h (OrderedDouble.floor_ceil (OrderedDouble.isfinite_of_lt hpos' hlt)) hpos').mono hceil

theorem below_of_exact {exact : D} (hle : Double.le a exact = true) (hexact : n ≤ exactMax → exact = Double.ofNat n)
    (hmax : Double.le a (Double.ofNat exactMax) = true) (hn : n ≤ sizeMax) : Below a n := by
  refine ⟨hn, ?_⟩
  by_cases h : n ≤ exactMax
  · rw [← hexact h]
    exact hle
  · exact le_trans hmax (OrderedDouble.ofNat_le (Nat.le_of_not_le h))

theorem Below.add (ha : Below a m) (hb : Below b n) (hsize : m + n ≤ sizeMax)
    (hmax : Double.le (Double.add a b) (Double.ofNat exactMax) = true) : Below (Double.add a b) (m + n) :=
  below_of_exact (OrderedDouble.add_le ha.size hb.size ha.le hb.le) OrderedDouble.add_ofNat hmax hsize

theorem Below.sub (ha : Below a m) (hb : Double.le Double.zero b = true) : Below (Double.sub a b) m :=
  ⟨ha.size, OrderedDouble.sub_le ha.size ha.le hb⟩

theorem Below.mul (ha : Below a m) (hb : Below b n) (hsize : m * n ≤ sizeMax)
    (hsign : Double.le Double.zero a = true ∨ Double.le Double.zero b = true)
    (hmax : Double.le (Double.mul a b) (Double.ofNat exactMax) = true) : Below (Double.mul a b) (m * n) :=
  below_of_exact (OrderedDouble.mul_le ha.size hb.size ha.le hb.le hsign (OrderedDouble.not_nan_of_le hmax).1)
    (OrderedDouble.mul_ofNat ha.size hb.size) hmax hsize

theorem Below.div (ha : Below a m) (hpos : Double.lt Double.zero b = true) (hfinite : Double.isfinite b = true)
    (hn : sizeCast (Double.ceil (Double.div (Double.ofNat m) b)) = .ok n) : Below (Double.div a b) n :=
  (below_of_sizeCast_ceil hn (OrderedDouble.div_nonneg ha.size hpos hfinite)).mono
    (OrderedDouble.div_le ha.size ha.le hpos hfinite)

theorem below_greater (ha : Below a m) (hb : Below b n) : Below (if Double.gt b a then b else a) (max m n) := by
  have hsize : max m n ≤ sizeMax := Nat.max_le.mpr ⟨ha.size, hb.size⟩
  split
  · exact hb.weaken (Nat.le_max_right m n) hsize
  · exact ha.weaken (Nat.le_max_left m n) hsize

theorem below_smaller (ha : Below a m) (hb : Below b n) : Below (if Double.lt b a then b else a) (min m n) := by
  rcases Nat.le_total m n with hmn | hnm
  · rw [Nat.min_eq_left hmn]
    split
    · rename_i hlt
      exact ha.mono (OrderedDouble.le_of_lt hlt)
    · exact ha
  · rw [Nat.min_eq_right hnm]
    split
    · exact hb
    · rename_i hlt
      exact hb.mono (OrderedDouble.le_of_not_lt ha.not_nan hb.not_nan (by simpa using hlt))

variable {bounds : List Nat} {index : Ast D}

theorem below_maxOf {values : List D} (h : List.Forall₂ Below values bounds) (ha : Below a m) :
    Below (maxOf a values) (bounds.foldl max m) := by
  induction h generalizing a m with
  | nil => exact ha
  | cons hb _ ih => exact ih (below_greater ha hb)

theorem below_minOf {values : List D} (h : List.Forall₂ Below values bounds) (ha : Below a m) :
    Below (minOf a values) (bounds.foldl min m) := by
  induction h generalizing a m with
  | nil => exact ha
  | cons hb _ ih => exact ih (below_smaller ha hb)

/-! ### What an index refers to -/

inductive Ref where
  | var (name : String)
  | param (name : String)

mutual

def refs : Ast D → List Ref
  | .param name => [.param name]
  | .identifier name => [.var name]
  | .binary _ l r => refs l ++ refs r
  | .call _ args _ => refsOf args
  | _ => []

def refsOf : List (Ast D) → List Ref
  | [] => []
  | a :: as => refs a ++ refsOf as

end

/-- What the bound of a name is taken of: the expression of the first binding of the name, or of a constant that is no
    call parameter. -/
def Declared.expr? (m : Declared D) : Ref → Option (Ast D)
  | .var name => (m.binding? name).bind (·.expr)
  | .param name => (m.constant? name).bind fun c => if c.isCallParam then none else c.expr

/-- The names that an index refers to, itself or through the expressions of other names. -/
inductive Declared.Reaches (m : Declared D) (index : Ast D) : Ref → Prop
  | here {r : Ref} : r ∈ refs index → m.Reaches index r
  | through {r r' : Ref} {e : Ast D} : m.Reaches index r → m.expr? r = some e → r' ∈ refs e → m.Reaches index r'

def value (env : Env D) : Ref → Option (Value D)
  | .var name => env.var name
  | .param name => env.param name

def View.env (view : View D) : Env D := ⟨fun name => (view.cell name).read, view.getParamTyped⟩

/-- Operands on which the operator is monotone and exact: nothing negative is subtracted, no two negative numbers are
    multiplied, and no sum or product is beyond `2^53`. -/
def SafeOp (op : BinaryOp) (a b : D) : Prop :=
  match op with
  | .plus => Double.le (Double.add a b) (Double.ofNat exactMax) = true
  | .minus => Double.le Double.zero b = true
  | .star => (Double.le Double.zero a = true ∨ Double.le Double.zero b = true) ∧
      Double.le (Double.mul a b) (Double.ofNat exactMax) = true
  | _ => True

mutual

def Safe (env : Env D) : Ast D → Prop
  | .binary op l r => Safe env l ∧ Safe env r ∧
      ∀ a b, indexValue env l = some a → indexValue env r = some b → SafeOp op a b
  | .call _ args _ => SafeAll env args
  | _ => True

def SafeAll (env : Env D) : List (Ast D) → Prop
  | [] => True
  | a :: as => Safe env a ∧ SafeAll env as

end

def Declared.Bounded (m : Declared D) (e : Ast D) : Prop := ∃ depth bound, lookbackBoundImpl m depth e = .ok bound

def Declared.Known (m : Declared D) (env : Env D) (r : Ref) : Prop :=
  (∃ d, value env r = some (.number d)) ∧ ∀ name, r = .param name → ∃ c, m.constant? name = some c

structure Declared.Keeps (m : Declared D) (env : Env D) (reached : Ref → Prop) : Prop where
  closed : ∀ r, reached r → ∀ e, m.expr? r = some e → ∀ r' ∈ refs e, reached r'
  safe : ∀ r, reached r → ∀ e, m.expr? r = some e → Safe env e
  value : ∀ r, reached r → ∀ e, m.expr? r = some e → m.Bounded e → (∀ r' ∈ refs e, m.Known env r') →
    ∃ d, value env r = some (.number d) ∧ indexValue env e = some d
  limit : ∀ name c, reached (.param name) → m.constant? name = some c → c.isCallParam = true →
    ∃ d, env.param name = some (.number d) ∧ ∀ maximum, (m.limits name).2 = some maximum → Double.le d maximum = true

structure Declared.Sound (m : Declared D) (env : Env D) (e : Ast D) (bound : Nat) : Prop where
  known : ∀ r ∈ refs e, m.Known env r
  below : ∀ d, indexValue env e = some d → Below d bound

theorem callParamBound_below {limits : Option D × Option D} {expr : Option (Ast D)} {bound : Nat}
    (h : callParamBound limits expr = .ok bound) :
    ∃ maximum, limits.2 = some maximum ∧ Below maximum bound := by
  unfold callParamBound at h
  split at h
  · rename_i minimum maximum
    refine ⟨maximum, rfl, ?_⟩
    split at h
    · cases h
    · rename_i hmin
      split at h
      · cases h
      · rename_i hmax
        simp only [Bool.or_eq_true, Bool.not_eq_true', not_or, Bool.not_eq_false, Bool.not_eq_true] at hmin hmax
        obtain ⟨⟨hminFinite, hminPos⟩, -⟩ := hmin
        obtain ⟨⟨⟨hmaxFinite, hge⟩, hint⟩, -⟩ := hmax
        have hminNan : Double.isnan minimum = false := OrderedDouble.not_nan_of_isfinite hminFinite
        have hmaxNan : Double.isnan maximum = false := OrderedDouble.not_nan_of_isfinite hmaxFinite
        have hpos := le_trans (OrderedDouble.le_of_not_lt not_nan_zero hminNan hminPos)
          (OrderedDouble.le_of_not_lt hminNan hmaxNan hge)
        split at h
        · split at h
          · cases h
          · exact below_of_sizeCast h (by simpa [Double.ne] using hint) hpos
        · cases h
  · cases h

theorem binaryBound_below {op : BinaryOp} {right : Ast D} {leftBound rightBound bound : Nat} {env : Env D} {v : D}
    (h : binaryBound op right leftBound rightBound = .ok bound) (ha : Below a leftBound) (hb : Below b rightBound)
    (hright : indexValue env right = some b) (hsafe : SafeOp op a b) (hv : indexOp op a b = some v) : Below v bound := by
  unfold binaryBound at h
  split at h
  · split at h
    · cases h
    · cases h
      cases hv
      exact ha.add hb (by have := hb.size; omega) hsafe
  · cases h
    cases hv
    exact ha.sub hsafe
  · split at h
    · cases h
    · rename_i hsize
      cases h
      cases hv
      refine ha.mul hb ?_ hsafe.1 hsafe.2
      rcases Nat.eq_zero_or_pos rightBound with hzero | hpos
      · simp [hzero]
      · exact (Nat.le_div_iff_mul_le hpos).mp (by omega)
  · rename_i divisor
    cases hright
    split at h
    · cases h
    · rename_i hdivisor
      simp only [Bool.or_eq_true, Bool.not_eq_true', not_or, Bool.not_eq_false, Bool.not_eq_true] at hdivisor
      obtain ⟨hfinite, hnot⟩ := hdivisor
      have hpos : Double.lt Double.zero b = true := by
        by_contra hlt
        have hle := OrderedDouble.le_of_not_lt (OrderedDouble.not_nan_of_isfinite hfinite) not_nan_zero (by simpa using hlt)
        rw [hle] at hnot
        cases hnot
      simp only [indexOp] at hv
      split at hv
      · cases hv
      · cases hv
        exact ha.div hpos hfinite h
  · cases h

variable {env : Env D} {reached : Ref → Prop} {bound : Nat} {decl : Declared D}

theorem sound_of_mapM {depth : Nat}
    (ih : ∀ (e : Ast D) (bound : Nat), lookbackBoundImpl decl depth e = .ok bound → (∀ r ∈ refs e, reached r) → Safe env e →
      decl.Sound env e bound)
    {args : List (Ast D)} (h : args.mapM (lookbackBoundImpl decl depth) = .ok bounds)
    (hrefs : ∀ r ∈ refsOf args, reached r) (hsafe : SafeAll env args) :
    (∀ r ∈ refsOf args, decl.Known env r) ∧ ∀ values, indexValues env args = some values → List.Forall₂ Below values bounds := by
  induction args generalizing bounds with
  | nil =>
    cases h
    constructor
    · intro r hr
      cases hr
    · intro values hvalues
      cases hvalues
      exact .nil
  | cons a args ihargs =>
    rw [List.mapM_cons] at h
    obtain ⟨b, hb, h⟩ := bind_eq_ok.mp h
    obtain ⟨bs, hbs, hret⟩ := bind_eq_ok.mp h
    cases hret
    rw [SafeAll] at hsafe
    have hhead := ih a b hb (fun r hr => hrefs r (List.mem_append_left _ hr)) hsafe.1
    obtain ⟨hknown, hbelow⟩ := ihargs hbs (fun r hr => hrefs r (List.mem_append_right _ hr)) hsafe.2
    refine ⟨fun r hr => ?_, fun values hvalues => ?_⟩
    · rcases List.mem_append.mp hr with hr | hr
      · exact hhead.known r hr
      · exact hknown r hr
    · rw [indexValues] at hvalues
      obtain ⟨v, hv, hvalues⟩ := Option.bind_eq_some_iff.mp hvalues
      obtain ⟨vs, hvs, rfl⟩ := Option.map_eq_some_iff.mp hvalues
      exact .cons (hhead.below v hv) (hbelow vs hvs)

theorem sound_unary {name : String} {arg : Ast D} {argNames : List (Option String)} (h : decl.Sound env arg bound) {f : D → D}
    (hcall : ∀ v, indexCall name [v] = some (f v)) (hf : ∀ v, Below v bound → Below (f v) bound) :
    decl.Sound env (.call name [arg] argNames) bound := by
  constructor
  · intro r hr
    rw [refs, refsOf, refsOf, List.append_nil] at hr
    exact h.known r hr
  · intro d hd
    rw [indexValue, indexValues, indexValues] at hd
    obtain ⟨values, hvalues, hd⟩ := Option.bind_eq_some_iff.mp hd
    obtain ⟨v, hv, hvalues⟩ := Option.bind_eq_some_iff.mp hvalues
    cases hvalues
    rw [hcall v] at hd
    cases hd
    exact hf v (h.below v hv)

theorem sound_variadic {name : String} {arg : Ast D} {args : List (Ast D)} {argNames : List (Option String)} {first : Nat} (h : decl.Sound env arg first)
    (hargs : (∀ r ∈ refsOf args, decl.Known env r) ∧
      ∀ values, indexValues env args = some values → List.Forall₂ Below values bounds)
    {f : D → List D → D} (hcall : ∀ v vs, indexCall name (v :: vs) = some (f v vs))
    (hf : ∀ v vs, Below v first → List.Forall₂ Below vs bounds → Below (f v vs) bound) :
    decl.Sound env (.call name (arg :: args) argNames) bound := by
  constructor
  · intro r hr
    rw [refs, refsOf] at hr
    rcases List.mem_append.mp hr with hr | hr
    · exact h.known r hr
    · exact hargs.1 r hr
  · intro d hd
    rw [indexValue, indexValues] at hd
    obtain ⟨values, hvalues, hd⟩ := Option.bind_eq_some_iff.mp hd
    obtain ⟨v, hv, hvalues⟩ := Option.bind_eq_some_iff.mp hvalues
    obtain ⟨vs, hvs, rfl⟩ := Option.map_eq_some_iff.mp hvalues
    rw [hcall v vs] at hd
    cases hd
    exact hf v vs (h.below v hv) (hargs.2 vs hvs)

theorem sound_name (hkeeps : decl.Keeps env reached) {r : Ref} (hr : reached r) {e : Ast D} (he : decl.expr? r = some e)
    (hbounded : decl.Bounded e) (hsound : decl.Sound env e bound) (hrefs : refs index = [r])
    (hvalue : indexValue env index = numberOf (value env r))
    (hdeclared : ∀ name, r = .param name → ∃ c, decl.constant? name = some c) : decl.Sound env index bound := by
  obtain ⟨d, hd, hed⟩ := hkeeps.value r hr e he hbounded hsound.known
  constructor
  · intro r' hr'
    rw [hrefs] at hr'
    obtain rfl := List.mem_singleton.mp hr'
    exact ⟨⟨d, hd⟩, hdeclared⟩
  · intro v hv
    rw [hvalue, hd] at hv
    cases hv
    exact hsound.below d hed

theorem sound_of_bound (hkeeps : decl.Keeps env reached) (depth : Nat) :
    ∀ (e : Ast D) (bound : Nat), lookbackBoundImpl decl depth e = .ok bound → (∀ r ∈ refs e, reached r) → Safe env e →
      decl.Sound env e bound := by
  induction depth with
  | zero =>
    intro e bound h
    cases h
  | succ depth ih =>
    intro e bound h hrefs hsafe
    cases e with
    | number v =>
      simp only [lookbackBoundImpl] at h
      split at h
      · cases h
      · rename_i hv
        simp only [Bool.or_eq_true, Bool.not_eq_true', not_or, Bool.not_eq_false, Bool.not_eq_true] at hv
        have hpos := OrderedDouble.le_of_not_lt not_nan_zero (OrderedDouble.not_nan_of_isfinite hv.1.1) hv.1.2
        constructor
        · intro r hr
          cases hr
        · intro d hd
          cases hd
          exact below_of_sizeCast_ceil h hpos
    | param name =>
      simp only [lookbackBoundImpl] at h
      split at h
      · rename_i c hc
        have hreached : reached (.param name) := hrefs _ (by simp [refs])
        split at h
        · rename_i hcall
          obtain ⟨d, hd, hlimit⟩ := hkeeps.limit name c hreached hc hcall
          obtain ⟨maximum, hmaximum, hbelow⟩ := callParamBound_below h
          refine ⟨fun r hr => ?_, fun v hv => ?_⟩
          · rw [refs] at hr
            obtain rfl := List.mem_singleton.mp hr
            refine ⟨⟨d, hd⟩, fun name' hname => ?_⟩
            cases hname
            exact ⟨c, hc⟩
          · rw [indexValue, hd] at hv
            cases hv
            exact hbelow.mono (hlimit maximum hmaximum)
        · rename_i hcall
          split at h
          · rename_i expr hexpr
            have hexpr? : decl.expr? (.param name) = some expr := by
              rw [Declared.expr?, hc, Option.bind_some, if_neg hcall, hexpr]
            have hsound := ih expr bound h (hkeeps.closed _ hreached expr hexpr?) (hkeeps.safe _ hreached expr hexpr?)
            refine sound_name hkeeps hreached hexpr? ⟨depth, bound, h⟩ hsound rfl (by rw [indexValue]; rfl) fun name' hname => ?_
            cases hname
            exact ⟨c, hc⟩
          · cases h
      · cases h
    | identifier name =>
      simp only [lookbackBoundImpl] at h
      split at h
      · rename_i expr hexpr
        have hreached : reached (.var name) := hrefs _ (by simp [refs])
        have hexpr? : decl.expr? (.var name) = some expr := hexpr
        have hsound := ih expr bound h (hkeeps.closed _ hreached expr hexpr?) (hkeeps.safe _ hreached expr hexpr?)
        exact sound_name hkeeps hreached hexpr? ⟨depth, bound, h⟩ hsound rfl (by rw [indexValue]; rfl) fun name' hname => by
          cases hname
      · cases h
    | call name args argNames =>
      simp only [lookbackBoundImpl] at h
      have hsafe' : SafeAll env args := by simpa only [Safe] using hsafe
      have hrefs' : ∀ r ∈ refsOf args, reached r := by simpa only [refs] using hrefs
      have harg : ∀ {arg : Ast D} {rest : List (Ast D)} {b : Nat}, args = arg :: rest →
          lookbackBoundImpl decl depth arg = .ok b → decl.Sound env arg b := by
        rintro arg rest b rfl hb
        rw [SafeAll] at hsafe'
        exact ih arg b hb (fun r hr => hrefs' r (List.mem_append_left _ hr)) hsafe'.1
      have hrest : ∀ {arg : Ast D} {rest : List (Ast D)} {bs : List Nat}, args = arg :: rest →
          rest.mapM (lookbackBoundImpl decl depth) = .ok bs → (∀ r ∈ refsOf rest, decl.Known env r) ∧
            ∀ values, indexValues env rest = some values → List.Forall₂ Below values bs := by
        rintro arg rest bs rfl hbs
        rw [SafeAll] at hsafe'
        exact sound_of_mapM ih hbs (fun r hr => hrefs' r (List.mem_append_right _ hr)) hsafe'.2
      split at h
      · exact sound_unary (harg rfl h) (fun _ => rfl) fun v hv => ⟨hv.size, OrderedDouble.round_le hv.le⟩
      · exact sound_unary (harg rfl h) (fun _ => rfl) fun v hv => ⟨hv.size, OrderedDouble.floor_le hv.le⟩
      · exact sound_unary (harg rfl h) (fun _ => rfl) fun v hv => ⟨hv.size, OrderedDouble.ceil_le hv.le⟩
      · obtain ⟨b, hb, h⟩ := bind_eq_ok.mp h
        obtain ⟨bs, hbs, hret⟩ := bind_eq_ok.mp h
        cases hret
        exact sound_variadic (harg rfl hb) (hrest rfl hbs) (fun _ _ => rfl) fun v vs hv hvs => below_maxOf hvs hv
      · obtain ⟨b, hb, h⟩ := bind_eq_ok.mp h
        obtain ⟨bs, hbs, hret⟩ := bind_eq_ok.mp h
        cases hret
        exact sound_variadic (harg rfl hb) (hrest rfl hbs) (fun _ _ => rfl) fun v vs hv hvs => below_minOf hvs hv
      · cases h
    | binary op l r =>
      simp only [lookbackBoundImpl] at h
      obtain ⟨lb, hlb, h⟩ := bind_eq_ok.mp h
      obtain ⟨rb, hrb, h⟩ := bind_eq_ok.mp h
      rw [refs] at hrefs
      rw [Safe] at hsafe
      have hl := ih l lb hlb (fun r hr => hrefs r (List.mem_append_left _ hr)) hsafe.1
      have hr := ih r rb hrb (fun r hr => hrefs r (List.mem_append_right _ hr)) hsafe.2.1
      constructor
      · intro r' hr'
        rw [refs] at hr'
        rcases List.mem_append.mp hr' with hr' | hr'
        · exact hl.known r' hr'
        · exact hr.known r' hr'
      · intro d hd
        rw [indexValue] at hd
        obtain ⟨a, ha, hd⟩ := Option.bind_eq_some_iff.mp hd
        obtain ⟨b, hb, hd⟩ := Option.bind_eq_some_iff.mp hd
        exact binaryBound_below h (hl.below a ha) (hr.below b hb) hb (hsafe.2.2 a b ha hb) hd
    | _ => cases h

/-- The evaluators compute the value of an expression that has a bound and whose names are numbers. -/
structure Runtime.Computes (rt : Runtime D χ) (decl : Declared D) : Prop where
  ast : ∀ e view eff v eff', decl.Bounded e → (∀ r ∈ refs e, decl.Known view.env r) →
    rt.evalAst e view eff = (.ok v, eff') → ∃ d, v = .number d ∧ indexValue view.env e = some d
  number : ∀ e view eff d eff', decl.Bounded e → (∀ r ∈ refs e, decl.Known view.env r) →
    rt.evalAstNumber e view eff = (.ok d, eff') → indexValue view.env e = some d

/-- A program compiled from a model: an expression with a bound is compiled as it stands, after those that it names. -/
structure Declared.CompilesTo (decl : Declared D) (p : Program D) : Prop where
  binding : ∀ b ∈ p.bindings, b.kind = .expr → ∀ e, decl.expr? (.var b.name) = some e → decl.Bounded e → b.ast = e
  ordered : ∀ pre b post, p.bindings = pre ++ b :: post → ∀ name, .var name ∈ refs b.ast →
    ∀ b' ∈ b :: post, b'.kind = .expr → name ≠ b'.name

theorem Runtime.Computes.eval {rt : Runtime D χ} (h : rt.Computes decl) {kind : ResultKind} {e : Ast D} {view : View D}
    {eff eff' : Effects D χ} {v : Value D} (hbounded : decl.Bounded e) (hknown : ∀ r ∈ refs e, decl.Known view.env r)
    (heval : rt.eval kind e view eff = (.ok v, eff')) : ∃ d, v = .number d ∧ indexValue view.env e = some d := by
  cases kind with
  | number =>
    simp only [Runtime.eval, Prod.mk.injEq] at heval
    rcases hrun : rt.evalAstNumber e view eff with ⟨result, eff''⟩
    rw [hrun] at heval
    cases result with
    | error err => cases heval.1
    | ok d =>
      cases heval.1
      exact ⟨d, rfl, h.number e view eff d eff'' hbounded hknown hrun⟩
  | bool =>
    simp only [Runtime.eval, Runtime.evalAstBoolResult, Prod.mk.injEq] at heval
    rcases hrun : rt.evalAst e view eff with ⟨result, eff''⟩
    rw [hrun] at heval
    cases result with
    | error err => cases heval.1
    | ok w =>
      obtain ⟨d, rfl, -⟩ := h.ast e view eff w eff'' hbounded hknown hrun
      cases heval.1
  | int64 | unknown => exact h.ast e view eff v eff' hbounded hknown heval

mutual

theorem indexValue_congr {env env' : Env D} : ∀ (e : Ast D), (∀ r ∈ refs e, value env' r = value env r) →
    indexValue env' e = indexValue env e
  | .param name, h => by
    rw [indexValue, indexValue]
    exact congrArg numberOf (h (.param name) (by simp [refs]))
  | .identifier name, h => by
    rw [indexValue, indexValue]
    exact congrArg numberOf (h (.var name) (by simp [refs]))
  | .binary op l r, h => by
    rw [refs] at h
    rw [indexValue, indexValue, indexValue_congr l fun r' hr' => h r' (List.mem_append_left _ hr'),
      indexValue_congr r fun r' hr' => h r' (List.mem_append_right _ hr')]
  | .call name args argNames, h => by
    rw [refs] at h
    rw [indexValue, indexValue, indexValues_congr args h]
  | .number _, _ | .int64 _, _ | .bool _, _ | .string _, _ | .array _, _ | .record _ _, _ | .fieldAccess _ _, _
  | .fieldOf _ _, _ | .chainAccess _, _ | .producerAccess _ _ _ _, _ | .unary _ _, _ | .index _ _, _ | .ternary _ _ _, _ => by
    simp only [indexValue]

theorem indexValues_congr {env env' : Env D} : ∀ (as : List (Ast D)), (∀ r ∈ refsOf as, value env' r = value env r) →
    indexValues env' as = indexValues env as
  | [], _ => rfl
  | a :: as, h => by
    rw [refsOf] at h
    rw [indexValues, indexValues, indexValue_congr a fun r hr => h r (List.mem_append_left _ hr),
      indexValues_congr as fun r hr => h r (List.mem_append_right _ hr)]

end

variable {rt : Runtime D χ} {p : Program D} {s t : Session D χ}

omit [OrderedDouble D] in
theorem evalBindings_split [Double D] {pre post : List (Binding D)} {b : Binding D} (h : evalBindings rt (pre ++ b :: post) s = (none, t)) :
    ∃ (u : Session D χ) (v : Value D) (eff : Effects D χ), rt.eval b.resultKind b.ast u.view u.effects = (.ok v, eff) ∧
      evalBindings rt post (assign b v { u with effects := eff }) = (none, t) ∧
      u.view ∈ (events rt (pre ++ b :: post) s).map (·.view) := by
  induction pre generalizing s with
  | nil =>
    obtain ⟨v, eff, heval, hrest, hevents⟩ := evalBindings_cons h
    refine ⟨s, v, eff, heval, hrest, ?_⟩
    rw [List.nil_append, hevents]
    exact List.mem_cons_self
  | cons a pre ih =>
    obtain ⟨v, eff, -, hrest, hevents⟩ := evalBindings_cons h
    obtain ⟨u, w, eff', heval, hpost, hview⟩ := ih hrest
    refine ⟨u, w, eff', heval, hpost, ?_⟩
    rw [List.cons_append]
    refine hevents.symm ▸ List.mem_cons_of_mem _ hview

theorem value_of_evaluated (hrt : rt.Computes decl) (hcompiles : decl.CompilesTo p) {done rest : List (Binding D)}
    (hdone : p.bindings = done ++ rest) (hpass : evalBindings rt done s = (none, t)) {b : Binding D} (hb : b ∈ done)
    (hkind : b.kind = .expr) (hbounded : decl.Bounded b.ast) (hknown : ∀ r ∈ refs b.ast, decl.Known t.view.env r)
    (hparams : ∀ name, .param name ∈ refs b.ast → ∀ e ∈ events rt done s,
      e.view.getParamTyped name = t.view.getParamTyped name) :
    ∃ d, t.view.env.var b.name = some (.number d) ∧ indexValue t.view.env b.ast = some d := by
  obtain ⟨pre, post, rfl⟩ := List.append_of_mem hb
  obtain ⟨u, v, eff, heval, hpost, hview⟩ := evalBindings_split hpass
  have hsplit : p.bindings = pre ++ b :: (post ++ rest) := by rw [hdone, List.append_assoc, List.cons_append]
  -- the names of the expression keep their values from its evaluation on
  have hsame : ∀ r ∈ refs b.ast, value u.view.env r = value t.view.env r := by
    intro r hr
    cases r with
    | param name =>
      obtain ⟨e, he, hev⟩ := List.mem_map.mp hview
      rw [← hev]
      exact hparams name hr e he
    | var name =>
      have hne := hcompiles.ordered pre b (post ++ rest) hsplit name hr
      have hcell := (evalBindings_keeps hpost fun b' hb' => hne b' (List.mem_cons_of_mem b (List.mem_append_left rest hb'))).1.1
      have hassign := cell_assign_of_ne v { u with effects := eff } (hne b List.mem_cons_self)
      show (u.ctx.cell name).read = (t.ctx.cell name).read
      rw [hcell, hassign]
  have hknown' : ∀ r ∈ refs b.ast, decl.Known u.view.env r := by
    intro r hr
    obtain ⟨⟨d, hd⟩, hdeclared⟩ := hknown r hr
    exact ⟨⟨d, (hsame r hr).trans hd⟩, hdeclared⟩
  obtain ⟨d, rfl, hd⟩ := hrt.eval hbounded hknown' heval
  refine ⟨d, ?_, (indexValue_congr b.ast hsame) ▸ hd⟩
  have hne : ∀ b' ∈ post, b'.kind = .expr → b.name ≠ b'.name := by
    intro b' hb' _ heq
    have hnodup := p.binding_names
    rw [hsplit, List.map_append, List.map_cons] at hnodup
    have hafter := (List.nodup_cons.mp (List.nodup_append.mp hnodup).2.1).1
    exact hafter (heq ▸ List.mem_map_of_mem (List.mem_append_left rest hb'))
  have hcell := (evalBindings_keeps hpost hne).1.1
  have hassign : (assign b (.number d) { u with effects := eff }).ctx.cell b.name = (u.ctx.cell b.name).put (.number d) := by
    unfold assign
    rw [hkind]
    exact Frame.cell_setValue_self u.ctx b.name (.number d)
  show (t.ctx.cell b.name).read = _
  rw [hcell, hassign]
  exact (Cell.read_put_iff _ _).mpr trivial

omit [OrderedDouble D] in
theorem exists_of_historySpecAdd (specs : List (HistorySpec D)) (name : String) (target : Option (Ast D)) {depth : Nat}
    (hdepth : depth ≠ 0) : ∃ spec ∈ historySpecAdd specs name target depth, spec.name = name ∧ depth ≤ spec.depth := by
  unfold historySpecAdd
  rw [if_neg hdepth]
  split
  · rename_i hany
    induction specs with
    | nil => cases hany
    | cons spec specs ih =>
      rw [List.replaceF_cons]
      by_cases hname : spec.name = name
      · simp only [hname, beq_self_eq_true, if_true]
        refine ⟨_, List.mem_cons_self, rfl, ?_⟩
        dsimp only
        split <;> omega
      · have hskip : (spec.name == name) = false := beq_false_of_ne hname
        rw [List.any_cons, hskip, Bool.false_or] at hany
        obtain ⟨found, hfound, hspec⟩ := ih hany
        simp only [hskip, Bool.false_eq_true, if_false]
        exact ⟨found, List.mem_cons_of_mem _ hfound, hspec⟩
  · exact ⟨_, List.mem_append_right _ (List.mem_singleton.mpr rfl), rfl, Nat.le_refl _⟩

/-- The model computes in the index as its bound does: what the index refers to has the value of its expression, and the
    operators are safe. The index is a literal offset, or within the cap of the resolver. -/
structure Declared.Regular (decl : Declared D) (done : List (Event D)) (env : Env D) (index : Ast D) : Prop where
  cap : lookbackLiteralOffset index ≠ none ∨ ∀ d, indexValue env index = some d → Double.le d (Double.ofNat 512) = true
  safe : Safe env index ∧ ∀ r, decl.Reaches index r → ∀ e, decl.expr? r = some e → Safe env e
  expression : ∀ name, decl.Reaches index (.var name) → ∃ x ∈ done, x.binding.kind = .expr ∧ x.binding.name = name
  constant : ∀ name e, decl.Reaches index (.param name) → decl.expr? (.param name) = some e →
    ∃ d, env.param name = some (.number d) ∧ indexValue env e = some d
  steady : ∀ name, decl.Reaches index (.param name) → ∀ x ∈ done, x.view.getParamTyped name = env.param name

def Declared.WithinLimits (decl : Declared D) (env : Env D) : Prop :=
  ∀ name c, decl.constant? name = some c → c.isCallParam = true →
    ∃ d, env.param name = some (.number d) ∧ ∀ maximum, (decl.limits name).2 = some maximum → Double.le d maximum = true

theorem keeps_of_regular (hrt : rt.Computes decl) (hcompiles : decl.CompilesTo p) {done rest : List (Binding D)}
    (hdone : p.bindings = done ++ rest) (hpass : evalBindings rt done s = (none, t))
    (hregular : decl.Regular (events rt done s) t.view.env index) (hlimits : decl.WithinLimits t.view.env) :
    decl.Keeps t.view.env (decl.Reaches index) where
  closed _ hr _ he _ hr' := .through hr he hr'
  safe := hregular.safe.2
  limit name c _ := hlimits name c
  value r hr e he hbounded hknown := by
    cases r with
    | param name => exact hregular.constant name e hr he
    | var name =>
      obtain ⟨x, hx, hkind, rfl⟩ := hregular.expression name hr
      have hb : x.binding ∈ done := (evalBindings_staged hpass).1 ▸ List.mem_map_of_mem hx
      have hast : x.binding.ast = e :=
        hcompiles.binding x.binding (hdone ▸ List.mem_append_left rest hb) hkind e he hbounded
      subst hast
      exact value_of_evaluated hrt hcompiles hdone hpass hb hkind hbounded hknown fun name' hname' =>
        hregular.steady name' (.through hr he hname')

theorem toSize_le_of_below {d : D} (hbound : lookbackBound decl index = .ok bound)
    (hbelow : Below d bound) (hvalue : indexValue env index = some d) (hpos : Double.le Double.zero d = true)
    (hcap : lookbackLiteralOffset index ≠ none ∨ Double.le d (Double.ofNat 512) = true) : Double.toSize d ≤ bound := by
  rcases hcap with hliteral | hcap
  · cases index with
    | number raw =>
      cases hvalue
      simp only [lookbackBound, lookbackBoundImpl] at hbound
      split at hbound
      · cases hbound
      · unfold sizeCast at hbound
        split at hbound
        · rename_i hlt
          cases hbound
          exact OrderedDouble.toSize_le hpos (OrderedDouble.le_ceil (OrderedDouble.not_nan_of_le hpos).2) hlt
        · cases hbound
    | _ => exact absurd rfl hliteral
  · by_cases hexact : bound ≤ exactMax
    · have hle := OrderedDouble.toSize_le hpos hbelow.le (OrderedDouble.ofNat_lt_sizeMax hexact)
      rwa [OrderedDouble.toSize_ofNat hexact] at hle
    · have h512 : 512 ≤ exactMax := by decide
      have hle := OrderedDouble.toSize_le hpos hcap (OrderedDouble.ofNat_lt_sizeMax h512)
      rw [OrderedDouble.toSize_ofNat h512] at hle
      omega

/-- In every tick, an index with a bound that comes out as a non-negative integer is at most the bound, the resolver takes
    it, and the history reserved for the bound reaches it. -/
theorem lookback_within_bound (rt : Runtime D χ) (decl : Declared D) (p : Program D) (hrt : rt.Computes decl)
    (hcompiles : decl.CompilesTo p) (s t : Session D χ) (done rest : List (Binding D)) (hdone : p.bindings = done ++ rest)
    (hpass : evalBindings rt done (ready rt p s) = (none, t)) (hlimits : decl.WithinLimits t.view.env) (index : Ast D)
    (bound : Nat) (hbound : lookbackBound decl index = .ok bound)
    (hregular : decl.Regular (events rt done (ready rt p s)) t.view.env index) (d : D) (eff eff' : Effects D χ)
    (heval : rt.evalAstNumber index t.view eff = (.ok d, eff')) (hfinite : Double.isfinite d = true)
    (hpos : Double.le Double.zero d = true) (hint : Double.eq (Double.floor d) d = true) :
    Double.toSize d ≤ bound ∧ (resolverOffset index d).isSome = true ∧
      ∀ (specs : List (HistorySpec D)) (key : String) (target : Option (Ast D)) (enclosing : Nat), bound + enclosing ≠ 0 →
        ∃ spec ∈ historySpecAdd specs key target (bound + enclosing),
          spec.name = key ∧ Double.toSize d + enclosing ≤ spec.depth := by
  have hkeeps := keeps_of_regular hrt hcompiles hdone hpass hregular hlimits
  have hsound := sound_of_bound hkeeps 33 index bound hbound (fun r hr => .here hr) hregular.safe.1
  have hvalue := hrt.number index t.view eff d eff' ⟨33, bound, hbound⟩ hsound.known heval
  have hcap : lookbackLiteralOffset index ≠ none ∨ Double.le d (Double.ofNat 512) = true :=
    hregular.cap.imp_right fun h => h d hvalue
  have hle := toSize_le_of_below hbound (hsound.below d hvalue) hvalue hpos hcap
  refine ⟨hle, ?_, fun specs key target enclosing hdepth => ?_⟩
  · unfold resolverOffset
    rcases hcap with hliteral | hcap
    · obtain ⟨offset, hoffset⟩ := Option.ne_none_iff_exists'.mp hliteral
      rw [hoffset]
      rfl
    · have hneg : Double.lt d Double.zero = false := OrderedDouble.not_lt_of_le hpos
      have hover : Double.gt d (Double.ofNat 512) = false := OrderedDouble.not_lt_of_le hcap
      simp [hfinite, hneg, hover, Double.ne, hint]
  · obtain ⟨spec, hspec, hname, hdepth'⟩ := exists_of_historySpecAdd specs key target hdepth
    exact ⟨spec, hspec, hname, by omega⟩

end

def indexRuntime : Runtime Int Unit where
  evalAst ast view eff := ((indexValue view.env ast).elim (.error ⟨.unknownIdentifier, "Unknown identifier"⟩) fun d => .ok (.number d), eff)
  evalAstNumber ast view eff := ((indexValue view.env ast).elim (.error ⟨.unknownIdentifier, "Unknown identifier"⟩) .ok, eff)
  nan := 0

theorem indexRuntime_computes (decl : Declared Int) : indexRuntime.Computes decl where
  ast e view eff v eff' _ _ h := by
    simp only [indexRuntime, Prod.mk.injEq] at h
    cases hvalue : indexValue view.env e with
    | none =>
      rw [hvalue] at h
      cases h.1
    | some d =>
      rw [hvalue] at h
      cases h.1
      exact ⟨d, rfl, rfl⟩
  number e view eff d eff' _ _ h := by
    simp only [indexRuntime, Prod.mk.injEq] at h
    cases hvalue : indexValue view.env e with
    | none =>
      rw [hvalue] at h
      cases h.1
    | some d' =>
      rw [hvalue] at h
      cases h.1
      rfl

def offsetBinding : Binding Int := ⟨"k", .expr, .number, false, .binary .plus (.number 3) (.number 1)⟩

def lagged : Program Int where
  constants := []
  stateDefaults := []
  bindings := [offsetBinding, ⟨"y", .expr, .number, false, .index (.identifier "x") (.identifier "k")⟩]
  inputs := ["x"]
  outputs := ["y"]
  historySpecs := [⟨"x", some (.identifier "x"), 4⟩]
  binding_names := by decide
  state_names := List.nodup_nil
  input_free := by decide
  update_known := by decide
  expr_free := by decide

def laggedSource : Declared Int where
  bindings := [⟨"k", some offsetBinding.ast⟩, ⟨"y", some (.index (.identifier "x") (.identifier "k"))⟩]

theorem laggedSource_compiles : laggedSource.CompilesTo lagged where
  binding b hb _ e he hbounded := by
    rcases List.mem_cons.mp hb with rfl | hb
    · exact Option.some.inj he
    · obtain rfl := List.mem_singleton.mp hb
      exact Option.some.inj he
  ordered pre b post hsplit name hname b' hb' _ := by
    have hb : b ∈ lagged.bindings := by rw [hsplit]; simp
    rcases List.mem_cons.mp hb with rfl | hb
    · simp [offsetBinding, refs] at hname
    · obtain rfl := List.mem_singleton.mp hb
      simp [refs] at hname

def afterOffset : Session Int Unit :=
  (evalBindings indexRuntime [offsetBinding] (ready indexRuntime lagged (blank indexRuntime lagged ()))).2

theorem evalBindings_offset :
    evalBindings indexRuntime [offsetBinding] (ready indexRuntime lagged (blank indexRuntime lagged ())) =
      (none, afterOffset) := rfl

theorem withinLimits_lagged : laggedSource.WithinLimits afterOffset.view.env := by
  intro name c hc
  cases hc

theorem reaches_offset {r : Ref} (h : laggedSource.Reaches (.identifier "k") r) : r = .var "k" := by
  induction h with
  | here hr =>
    rw [refs] at hr
    exact List.mem_singleton.mp hr
  | through _ he hr' ih =>
    subst ih
    obtain rfl := Option.some.inj he
    simp [offsetBinding, refs] at hr'

theorem regular_offset : laggedSource.Regular
    (events indexRuntime [offsetBinding] (ready indexRuntime lagged (blank indexRuntime lagged ()))) afterOffset.view.env
    (.identifier "k") where
  cap := by
    refine .inr fun d hd => ?_
    have hfour : indexValue afterOffset.view.env (.identifier "k") = some 4 := rfl
    rw [hfour] at hd
    obtain rfl := Option.some.inj hd
    rfl
  safe := by
    refine ⟨trivial, fun r hr e he => ?_⟩
    obtain rfl := reaches_offset hr
    obtain rfl := Option.some.inj he
    refine ⟨trivial, trivial, fun a b ha hb => ?_⟩
    cases ha
    cases hb
    rfl
  expression name hname := by
    cases reaches_offset hname
    exact ⟨_, List.mem_cons_self, rfl, rfl⟩
  constant name e hname := by cases reaches_offset hname
  steady name hname := by cases reaches_offset hname

theorem lagged_within_bound :
    Double.toSize (4 : Int) ≤ 4 ∧ (resolverOffset (.identifier "k") (4 : Int)).isSome = true ∧
      ∀ (specs : List (HistorySpec Int)) (key : String) (target : Option (Ast Int)) (enclosing : Nat), 4 + enclosing ≠ 0 →
        ∃ spec ∈ historySpecAdd specs key target (4 + enclosing),
          spec.name = key ∧ Double.toSize (4 : Int) + enclosing ≤ spec.depth :=
  lookback_within_bound indexRuntime laggedSource lagged (indexRuntime_computes _) laggedSource_compiles
    (blank indexRuntime lagged ()) afterOffset [offsetBinding] _ rfl evalBindings_offset withinLimits_lagged
    (.identifier "k") 4 rfl regular_offset 4 afterOffset.effects afterOffset.effects rfl rfl rfl rfl

theorem lookback_beyond_bound : ¬ ∀ (rt : Runtime Int Unit) (decl : Declared Int) (p : Program Int), rt.Computes decl →
    decl.CompilesTo p → ∀ (s t : Session Int Unit) (done rest : List (Binding Int)), p.bindings = done ++ rest →
    evalBindings rt done (ready rt p s) = (none, t) → decl.WithinLimits t.view.env → ∀ (index : Ast Int) (bound : Nat),
    lookbackBound decl index = .ok bound → ∀ (d : Int) (eff eff' : Effects Int Unit),
    rt.evalAstNumber index t.view eff = (.ok d, eff') → Double.isfinite d = true → Double.le Double.zero d = true →
    Double.eq (Double.floor d) d = true → Double.toSize d ≤ bound ∧ (resolverOffset index d).isSome = true := by
  intro h
  have hle := (h indexRuntime laggedSource lagged (indexRuntime_computes _) laggedSource_compiles
    (blank indexRuntime lagged ()) afterOffset [offsetBinding] _ rfl evalBindings_offset withinLimits_lagged
    (.binary .minus (.number 3) (.binary .minus (.number 1) (.number 5))) 3 rfl 7 afterOffset.effects afterOffset.effects
    rfl rfl rfl rfl).1
  exact absurd hle (by decide)

end Cxpr.Model
