import Cxpr.IndexGuards
import Cxpr.References
import Cxpr.Resample

/-! Expression analysis (`src/ast/analyze.c`): the facts that one walk over the tree collects. -/

namespace Cxpr.Analyze
open Eval
variable {D : Type}

inductive ExprType where
  | unknown | bool | number | struct
  deriving DecidableEq, Repr

/-- `cxpr_expr_type_from_value`. -/
def ExprType.ofValue : ValueType → ExprType
  | .bool => .bool
  | .struct => .struct
  | _ => .number

structure Analysis where
  resultType : ExprType := .unknown
  isConstant : Bool := false
  isPredicate : Bool := false
  usesVariables : Bool := false
  usesParameters : Bool := false
  usesFunctions : Bool := false
  usesExpressions : Bool := false
  usesFieldAccess : Bool := false
  canShortCircuit : Bool := false
  nodeCount : Nat := 0
  maxDepth : Nat := 0
  maxLookbackDepth : Nat := 0
  referenceCount : Nat := 0
  functionCount : Nat := 0
  parameterCount : Nat := 0
  fieldPathCount : Nat := 0
  firstUnknownFunction : Option String := none
  firstUnsupportedCodegenNode : Option String := none
  deriving DecidableEq

abbrev AnalyzeM := ExceptT Error (StateM Analysis)

structure ResampleCall (D : Type) where
  source : Ast D
  every : Source.Interval

def isResampleSource : Ast D → Bool
  | .identifier _ | .fieldAccess _ _ | .fieldOf _ _ | .chainAccess _ | .producerAccess _ _ _ _ | .call _ _ _ => true
  | _ => false

/-- `cxpr_resample_call_parse`. -/
def resampleCallParse (args : List (Ast D)) (argNames : List (Option String)) : Except Error (ResampleCall D) :=
  match args with
  | [source, interval] =>
    let second := argNames[1]?.join
    if (argNames[0]?.join).isSome || (second.isSome && second ≠ some "every") then
      .error ⟨.syntaxError, "resample accepts a positional source and positional or named every argument"⟩
    else
      match interval with
      | .string text =>
        match Resample.parseFixedDuration text with
        | .error message => .error ⟨.syntaxError, message⟩
        | .ok every =>
          if isResampleSource source then .ok ⟨source, every⟩
          else .error ⟨.typeMismatch, "resample source must be a provider/source-capable expression"⟩
      | _ => .error ⟨.typeMismatch, "resample every must be a compile-time string literal"⟩
  | _ => .error ⟨.wrongArity, "resample expects source and every"⟩

/-! ### The walk -/

def noteUnsupportedCodegen (kind : String) (out : Analysis) : Analysis :=
  { out with firstUnsupportedCodegenNode := out.firstUnsupportedCodegenNode <|> some kind }

/-- The lookup of a called function: its entry if there is a registry, after its arity and its named arguments were
    checked. -/
def checkCall (reg : Option (Registry D)) (name : String) (args : List (Ast D)) (argNames : List (Option String)) :
    AnalyzeM (Option (FuncEntry D)) := do
  match reg with
  | none => return none
  | some reg =>
    match reg.find name with
    | none =>
      modify fun out => { out with firstUnknownFunction := some name }
      throw ⟨.unknownFunction, unknownMessage "Unknown function" name⟩
    | some entry =>
      if args.length < entry.minArgs || entry.maxArgs < args.length then
        throw ⟨.wrongArity, "Wrong number of arguments"⟩
      else
        -- without names the binding only repeats the limit of the argument count
        let _ ← (if Ast.callUsesNamedArgs args.length argNames then callBindArgs entry args argNames else .ok args :
          Except Error _)
        modify fun out => { out with usesExpressions := out.usesExpressions || entry.definedBody.isSome }
        return some entry

def binaryType : BinaryOp → ExprType
  | .and | .or | .eq | .neq | .lt | .gt | .lte | .gte => .bool
  | .plus | .minus | .star | .slash | .percent | .power => .number

def uintMax : Nat := 2 ^ 32 - 1

section
variable [Double D]

def isOffset (v : D) : Bool :=
  Double.isfinite v && Double.ge v Double.zero && Double.eq (Double.floor v) v

/-- The lookback of a target, from the one above the access and its index. An offset that does not fit is dropped, and
    an index that is no offset counts as one of 512 on its own. -/
def targetLookback (lookback : Nat) (index : Ast D) : StateM Analysis Nat := do
  match index with
  | .number v =>
    if isOffset v then
      if Double.le v (Double.ofNat (uintMax - lookback)) then
        let summed := lookback + Double.toSize v
        modify fun out => { out with maxLookbackDepth := max out.maxLookbackDepth summed }
        return summed
      else return lookback
    else
      modify fun out => { out with maxLookbackDepth := max out.maxLookbackDepth 512 }
      return lookback
  | _ =>
    modify fun out => { out with maxLookbackDepth := max out.maxLookbackDepth 512 }
    return lookback

mutual

def analyzeNode (reg : Option (Registry D)) (depth lookback : Nat) (ast : Ast D) : AnalyzeM ExprType := do
  modify fun out => { out with maxDepth := max out.maxDepth depth, nodeCount := out.nodeCount + 1 }
  match ast with
  | .number _ | .int64 _ => return .number
  | .bool _ => return .bool
  | .string _ => return .unknown
  | .array es =>
    modify (noteUnsupportedCodegen "array")
    let _ ← analyzeNodes reg (depth + 1) lookback es
    return .unknown
  | .record _ values =>
    modify (noteUnsupportedCodegen "record")
    let _ ← analyzeNodes reg (depth + 1) lookback values
    return .unknown
  | .identifier _ =>
    modify fun out => { out with usesVariables := true, isConstant := false }
    return .number
  | .param _ =>
    modify fun out => { out with usesParameters := true, isConstant := false }
    return .number
  | .fieldAccess _ _ =>
    modify fun out => { noteUnsupportedCodegen "field_access" out with usesFieldAccess := true, isConstant := false }
    return .unknown
  | .fieldOf base _ =>
    modify fun out => { noteUnsupportedCodegen "field_access" out with usesFieldAccess := true, isConstant := false }
    let _ ← analyzeNode reg (depth + 1) lookback base
    return .unknown
  | .chainAccess _ =>
    modify fun out => { noteUnsupportedCodegen "chain_access" out with usesFieldAccess := true, isConstant := false }
    return .unknown
  | .producerAccess name args argNames _ =>
    modify fun out =>
      { noteUnsupportedCodegen "producer_access" out with
        usesFunctions := true
        usesFieldAccess := true
        isConstant := false }
    let _ ← analyzeNodes reg (depth + 1) lookback args
    let _ ← checkCall reg name args argNames
    return .unknown
  | .binary op l r =>
    let _ ← analyzeNode reg (depth + 1) lookback l
    let _ ← analyzeNode reg (depth + 1) lookback r
    modify fun out => { out with canShortCircuit := out.canShortCircuit || op = .and || op = .or }
    return binaryType op
  | .unary op a =>
    let operand ← analyzeNode reg (depth + 1) lookback a
    return if op = .not then .bool else operand
  | .call name args argNames =>
    modify fun out => { out with usesFunctions := true, isConstant := false }
    let types ← analyzeNodes reg (depth + 1) lookback args
    if name = "resample" then
      let _ ← (resampleCallParse args argNames : Except Error _)
      return types.head?.getD .unknown
    else
      let entry ← checkCall reg name args argNames
      return ((entry.bind (·.returnType)).map ExprType.ofValue).getD .unknown
  | .index target index =>
    modify fun out => { out with isConstant := false }
    let summed ← targetLookback lookback index
    let _ ← analyzeNode reg (depth + 1) summed target
    let _ ← analyzeNode reg (depth + 1) 0 index
    return .unknown
  | .ternary c t e =>
    modify fun out => { out with canShortCircuit := true }
    let _ ← analyzeNode reg (depth + 1) lookback c
    let left ← analyzeNode reg (depth + 1) lookback t
    let right ← analyzeNode reg (depth + 1) lookback e
    return if left = right then left else .unknown

def analyzeNodes (reg : Option (Registry D)) (depth lookback : Nat) (asts : List (Ast D)) : AnalyzeM (List ExprType) := do
  match asts with
  | [] => return []
  | ast :: asts =>
    let type ← analyzeNode reg depth lookback ast
    return type :: (← analyzeNodes reg depth lookback asts)

end

/-- `cxpr_analyze`: the analysis, and whether the walk succeeded. -/
def analyze (ast : Ast D) (reg : Option (Registry D)) : Except Error Unit × Analysis :=
  let (result, out) := (analyzeNode reg 1 0 ast).run.run { isConstant := true }
  let resultType := match result with
    | .ok type => type
    | .error _ => .unknown
  let references := Ast.collect 256 ast.mentions
  (result.map fun _ => (),
    { out with
      resultType := resultType
      isPredicate := resultType = .bool
      referenceCount := references.count
      functionCount := (Ast.collect 256 ast.called).count
      parameterCount := (Ast.collect 256 ast.usedParams).count
      fieldPathCount := references.names.countP fun name => name.toList.contains '.' })

def Walks {α : Type} (act : AnalyzeM α) (out : Analysis) (a : α) (out' : Analysis) : Prop :=
  act.run.run out = (.ok a, out')

omit [Double D]

section
variable {α β : Type} {act : AnalyzeM α} {k : α → AnalyzeM β} {out out' : Analysis} {a : α} {b : β}

theorem walks_bind : Walks (act >>= k) out b out' ↔ ∃ a mid, Walks act out a mid ∧ Walks (k a) mid b out' := by
  unfold Walks
  rw [ExceptT.run_bind, StateT.run_bind]
  rcases act.run.run out with ⟨x, mid⟩
  cases x with
  | error e =>
    constructor
    · intro h
      cases h
    · rintro ⟨a, mid', hact, -⟩
      cases hact
  | ok a =>
    constructor
    · exact fun h => ⟨a, mid, rfl, h⟩
    · rintro ⟨a', mid', hact, hk⟩
      cases hact
      exact hk

theorem eq_of_walks_pure {a' : α} (h : Walks (pure a : AnalyzeM α) out a' out') : a' = a ∧ out' = out := by
  cases h
  exact ⟨rfl, rfl⟩

theorem walks_modify {f : Analysis → Analysis} {k : Unit → AnalyzeM α} (h : Walks (modify f >>= k) out a out') :
    Walks (k ()) (f out) a out' := by
  obtain ⟨_, mid, hmodify, hk⟩ := walks_bind.mp h
  cases hmodify
  exact hk

theorem walks_lift {x : Except Error α} (h : Walks (liftM x : AnalyzeM α) out a out') : x = .ok a ∧ out' = out := by
  cases x with
  | error e => cases h
  | ok a' =>
    cases h
    exact ⟨rfl, rfl⟩

end
end

/-! ### What a walk finds -/

mutual

def isConstant : Ast D → Bool
  | .number _ | .int64 _ | .bool _ | .string _ => true
  | .array es => areConstant es
  | .record _ values => areConstant values
  | .binary _ l r => isConstant l && isConstant r
  | .unary _ a => isConstant a
  | .ternary c t e => isConstant c && isConstant t && isConstant e
  | _ => false

def areConstant : List (Ast D) → Bool
  | [] => true
  | a :: as => isConstant a && areConstant as

end

mutual

def reported (reg : Option (Registry D)) : Ast D → ExprType
  | .number _ | .int64 _ | .identifier _ | .param _ => .number
  | .bool _ => .bool
  | .binary op _ _ => binaryType op
  | .unary op a => if op = .not then .bool else reported reg a
  | .call name args _ =>
    if name = "resample" then (reportedList reg args).head?.getD .unknown
    else (((reg.bind (·.find name)).bind (·.returnType)).map ExprType.ofValue).getD .unknown
  | .ternary _ t e => if reported reg t = reported reg e then reported reg t else .unknown
  | .string _ | .array _ | .record _ _ | .fieldAccess _ _ | .fieldOf _ _ | .chainAccess _
  | .producerAccess _ _ _ _ | .index _ _ => .unknown

def reportedList (reg : Option (Registry D)) : List (Ast D) → List ExprType
  | [] => []
  | a :: as => reported reg a :: reportedList reg as

end

section
open ValuedDouble IndexGuards

/-- A `double` that compares by its value and that holds the values of an `unsigned`. -/
class OffsetDouble (D : Type) extends IndexDouble D where
  le_iff : ∀ {a b : D} {p q : ℚ}, value a = some p → value b = some q → (le a b = true ↔ p ≤ q)
  value_ofNat : ∀ n ≤ uintMax, value (ofNat n) = some (n : ℚ)

/-- A reference in the node is reached with a sum of literal offsets above it. The sum starts anew in an index. -/
inductive Reaches [OffsetDouble D] : Nat → Ast D → Nat → Prop
  | identifier (k : Nat) (name : String) : Reaches k (.identifier name) k
  | param (k : Nat) (name : String) : Reaches k (.param name) k
  | fieldAccess (k : Nat) (object field : String) : Reaches k (.fieldAccess object field) k
  | chainAccess (k : Nat) (path : List String) : Reaches k (.chainAccess path) k
  | offset {k m n : Nat} {v : D} {t : Ast D} (hv : value v = some (m : ℚ)) (h : Reaches (k + m) t n) :
      Reaches k (.index t (.number v)) n
  | dynamic {k n : Nat} {t i : Ast D} (hi : ∀ v m, i = .number v → value v ≠ some ((m : Nat) : ℚ)) (h : Reaches k t n) :
      Reaches k (.index t i) n
  | index {k n : Nat} {t i : Ast D} (h : Reaches 0 i n) : Reaches k (.index t i) n
  | array {k n : Nat} {es : List (Ast D)} {e : Ast D} (he : e ∈ es) (h : Reaches k e n) : Reaches k (.array es) n
  | record {k n : Nat} {names : List String} {values : List (Ast D)} {e : Ast D} (he : e ∈ values) (h : Reaches k e n) :
      Reaches k (.record names values) n
  | base {k n : Nat} {base : Ast D} {field : String} (h : Reaches k base n) : Reaches k (.fieldOf base field) n
  | producer {k n : Nat} {name field : String} {args : List (Ast D)} {argNames : List (Option String)} {e : Ast D}
      (he : e ∈ args) (h : Reaches k e n) : Reaches k (.producerAccess name args argNames field) n
  | call {k n : Nat} {name : String} {args : List (Ast D)} {argNames : List (Option String)} {e : Ast D} (he : e ∈ args)
      (h : Reaches k e n) : Reaches k (.call name args argNames) n
  | left {k n : Nat} {op : BinaryOp} {l r : Ast D} (h : Reaches k l n) : Reaches k (.binary op l r) n
  | right {k n : Nat} {op : BinaryOp} {l r : Ast D} (h : Reaches k r n) : Reaches k (.binary op l r) n
  | operand {k n : Nat} {op : UnaryOp} {a : Ast D} (h : Reaches k a n) : Reaches k (.unary op a) n
  | condition {k n : Nat} {c t e : Ast D} (h : Reaches k c n) : Reaches k (.ternary c t e) n
  | trueBranch {k n : Nat} {c t e : Ast D} (h : Reaches k t n) : Reaches k (.ternary c t e) n
  | falseBranch {k n : Nat} {c t e : Ast D} (h : Reaches k e n) : Reaches k (.ternary c t e) n

variable [OffsetDouble D] {reg : Option (Registry D)}

theorem Reaches.above_or_anew {k n : Nat} {ast : Ast D} (h : Reaches k ast n) : k ≤ n ∨ ∀ k', Reaches k' ast n := by
  induction h with
  | identifier | param | fieldAccess | chainAccess => exact .inl (Nat.le_refl _)
  | offset hv _ ih => exact ih.imp (fun h => by omega) fun h k' => .offset hv (h _)
  | dynamic hi _ ih => exact ih.imp_right fun h k' => .dynamic hi (h k')
  | index h => exact .inr fun k' => .index h
  | array he _ ih => exact ih.imp_right fun h k' => .array he (h k')
  | record he _ ih => exact ih.imp_right fun h k' => .record he (h k')
  | base _ ih => exact ih.imp_right fun h k' => .base (h k')
  | producer he _ ih => exact ih.imp_right fun h k' => .producer he (h k')
  | call he _ ih => exact ih.imp_right fun h k' => .call he (h k')
  | left _ ih => exact ih.imp_right fun h k' => .left (h k')
  | right _ ih => exact ih.imp_right fun h k' => .right (h k')
  | operand _ ih => exact ih.imp_right fun h k' => .operand (h k')
  | condition _ ih => exact ih.imp_right fun h k' => .condition (h k')
  | trueBranch _ ih => exact ih.imp_right fun h k' => .trueBranch (h k')
  | falseBranch _ ih => exact ih.imp_right fun h k' => .falseBranch (h k')

theorem isOffset_iff {v : D} : isOffset v = true ↔ ∃ m : Nat, value v = some (m : ℚ) := by
  unfold isOffset
  rw [Bool.and_eq_true, Bool.and_eq_true, IndexDouble.isfinite_iff]
  constructor
  · rintro ⟨⟨⟨q, hq⟩, hzero⟩, hfloor⟩
    have hle := (OffsetDouble.le_iff IndexDouble.value_zero hq).mp hzero
    have heq := (IndexDouble.eq_iff (IndexDouble.value_floor hq) hq).mp hfloor
    have hnat : (0 : ℤ) ≤ ⌊q⌋ := Int.floor_nonneg.mpr hle
    obtain ⟨m, hm⟩ := Int.eq_ofNat_of_zero_le hnat
    refine ⟨m, ?_⟩
    rw [hq, ← heq, hm]
    rfl
  · rintro ⟨m, hm⟩
    refine ⟨⟨⟨_, hm⟩, (OffsetDouble.le_iff IndexDouble.value_zero hm).mpr (Nat.cast_nonneg m)⟩, ?_⟩
    refine (IndexDouble.eq_iff (IndexDouble.value_floor hm) hm).mpr ?_
    rw [Int.floor_natCast, Int.cast_natCast]

theorem walks_targetLookback {k k' : Nat} {i : Ast D} {out out' : Analysis}
    (h : Walks (liftM (targetLookback k i) : AnalyzeM Nat) out k' out') (hk : k ≤ uintMax)
    (hout : k ≤ out.maxLookbackDepth) :
    out'.isConstant = out.isConstant ∧ out.maxLookbackDepth ≤ out'.maxLookbackDepth ∧ k' ≤ uintMax ∧
      k' ≤ out'.maxLookbackDepth ∧ (∀ v m, i = .number v → value v = some ((m : Nat) : ℚ) → k + m ≤ uintMax → k' = k + m) ∧
      ((∀ v m, i = .number v → value v ≠ some ((m : Nat) : ℚ)) → k' = k) := by
  have hraised : ∀ n, out.maxLookbackDepth ≤ max out.maxLookbackDepth n := fun n => Nat.le_max_left _ _
  cases i with
  | number v =>
    by_cases hv : isOffset v = true
    · obtain ⟨m, hm⟩ := isOffset_iff.mp hv
      have hvalue : ∀ n : Nat, value v = some (n : ℚ) → n = m := by
        intro n hn
        rw [hm] at hn
        exact_mod_cast (Option.some.inj hn).symm
      by_cases hle : Double.le v (Double.ofNat (uintMax - k)) = true
      · have hfit : m ≤ uintMax - k := by
          exact_mod_cast (OffsetDouble.le_iff hm (OffsetDouble.value_ofNat _ (Nat.sub_le _ _))).mp hle
        have hsize : Double.toSize v = m := IndexDouble.toSize_eq hm (by unfold uintMax at hfit; omega)
        have hrun : (k + Double.toSize v, { out with maxLookbackDepth := max out.maxLookbackDepth (k + Double.toSize v) }) =
            (k', out') := by
          have h := h
          simp only [targetLookback, hv, hle, if_true] at h
          cases h
          rfl
        cases hrun
        rw [hsize]
        refine ⟨rfl, hraised _, by omega, Nat.le_max_right _ _, ?_, fun hno => (hno v m rfl hm).elim⟩
        rintro w n ⟨⟩ hn -
        rw [hvalue n hn]
      · have hrun : (k, out) = (k', out') := by
          have h := h
          simp only [targetLookback, hv, hle, if_true] at h
          cases h
          rfl
        cases hrun
        refine ⟨rfl, Nat.le_refl _, hk, hout, ?_, fun hno => (hno v m rfl hm).elim⟩
        rintro w n ⟨⟩ hn hsum
        refine (hle ?_).elim
        rw [OffsetDouble.le_iff hm (OffsetDouble.value_ofNat _ (Nat.sub_le _ _)), ← hvalue n hn]
        exact_mod_cast (by omega : n ≤ uintMax - k)
    · have hrun : (k, { out with maxLookbackDepth := max out.maxLookbackDepth 512 }) = (k', out') := by
        have h := h
        simp only [targetLookback, hv] at h
        cases h
        rfl
      cases hrun
      refine ⟨rfl, hraised _, hk, hout.trans (hraised _), ?_, fun _ => rfl⟩
      rintro w n ⟨⟩ hn
      exact (hv (isOffset_iff.mpr ⟨n, hn⟩)).elim
  | _ =>
    cases h
    refine ⟨rfl, hraised _, hk, hout.trans (hraised _), ?_, fun _ => rfl⟩
    rintro v m ⟨⟩

abbrev SameDepth (out out' : Analysis) : Prop := out'.maxLookbackDepth = out.maxLookbackDepth

omit [OffsetDouble D] in
theorem walks_checkCall {name : String} {args : List (Ast D)} {argNames : List (Option String)}
    {entry : Option (FuncEntry D)} {out out' : Analysis} (h : Walks (checkCall reg name args argNames) out entry out') :
    entry = reg.bind (·.find name) ∧ out'.isConstant = out.isConstant ∧ SameDepth out out' := by
  unfold checkCall at h
  cases reg with
  | none =>
    obtain ⟨rfl, rfl⟩ := eq_of_walks_pure h
    exact ⟨rfl, rfl, rfl⟩
  | some reg =>
    rw [Option.bind_some]
    dsimp only at h
    cases hfind : reg.find name with
    | none =>
      rw [hfind] at h
      obtain ⟨_, mid, -, hrest⟩ := walks_bind.mp h
      cases hrest
    | some found =>
      simp only [hfind] at h
      split at h
      · cases h
      obtain ⟨_, mid, hbind, hrest⟩ := walks_bind.mp h
      obtain ⟨-, rfl⟩ := walks_lift hbind
      have hend := walks_modify hrest
      obtain ⟨rfl, rfl⟩ := eq_of_walks_pure hend
      exact ⟨rfl, rfl, rfl⟩

structure Found (reg : Option (Registry D)) (k : Nat) (ast : Ast D) (out : Analysis) (type : ExprType) (out' : Analysis) :
    Prop where
  type : type = reported reg ast
  constant : out'.isConstant = (out.isConstant && isConstant ast)
  grows : out.maxLookbackDepth ≤ out'.maxLookbackDepth
  reaches : ∀ n, Reaches k ast n → n ≤ uintMax → n ≤ out'.maxLookbackDepth

structure FoundAll (reg : Option (Registry D)) (k : Nat) (asts : List (Ast D)) (out : Analysis) (types : List ExprType)
    (out' : Analysis) : Prop where
  types : types = reportedList reg asts
  constant : out'.isConstant = (out.isConstant && areConstant asts)
  grows : out.maxLookbackDepth ≤ out'.maxLookbackDepth
  reaches : ∀ e ∈ asts, ∀ n, Reaches k e n → n ≤ uintMax → n ≤ out'.maxLookbackDepth

mutual

theorem found_of_walks : ∀ (ast : Ast D) {depth k : Nat} {out out' : Analysis} {type : ExprType},
    Walks (analyzeNode reg depth k ast) out type out' → k ≤ uintMax → k ≤ out.maxLookbackDepth →
    Found reg k ast out type out'
  | .number _, depth, k, out, out', type, h, hk, hout | .int64 _, depth, k, out, out', type, h, hk, hout
  | .bool _, depth, k, out, out', type, h, hk, hout | .string _, depth, k, out, out', type, h, hk, hout => by
    rw [analyzeNode] at h
    replace h := walks_modify h
    obtain ⟨rfl, rfl⟩ := eq_of_walks_pure h
    exact ⟨rfl, (Bool.and_true _).symm, Nat.le_refl _, fun n hn => nomatch hn⟩
  | .array es, depth, k, out, out', type, h, hk, hout => by
    rw [analyzeNode] at h
    replace h := walks_modify h
    replace h := walks_modify h
    obtain ⟨types, mid, hes, hrest⟩ := walks_bind.mp h
    obtain ⟨rfl, rfl⟩ := eq_of_walks_pure hrest
    have hfound := found_of_walksAll es hes hk hout
    refine ⟨rfl, hfound.constant, hfound.grows, fun n hn hmax => ?_⟩
    cases hn with
    | array he hn => exact hfound.reaches _ he n hn hmax
  | .record names values, depth, k, out, out', type, h, hk, hout => by
    rw [analyzeNode] at h
    replace h := walks_modify h
    replace h := walks_modify h
    obtain ⟨types, mid, hvalues, hrest⟩ := walks_bind.mp h
    obtain ⟨rfl, rfl⟩ := eq_of_walks_pure hrest
    have hfound := found_of_walksAll values hvalues hk hout
    refine ⟨rfl, hfound.constant, hfound.grows, fun n hn hmax => ?_⟩
    cases hn with
    | record he hn => exact hfound.reaches _ he n hn hmax
  | .identifier _, depth, k, out, out', type, h, hk, hout | .param _, depth, k, out, out', type, h, hk, hout
  | .fieldAccess _ _, depth, k, out, out', type, h, hk, hout
  | .chainAccess _, depth, k, out, out', type, h, hk, hout => by
    rw [analyzeNode] at h
    replace h := walks_modify h
    replace h := walks_modify h
    obtain ⟨rfl, rfl⟩ := eq_of_walks_pure h
    refine ⟨rfl, (Bool.and_false _).symm, Nat.le_refl _, fun n hn _ => ?_⟩
    cases hn
    exact hout
  | .fieldOf base field, depth, k, out, out', type, h, hk, hout => by
    rw [analyzeNode] at h
    replace h := walks_modify h
    replace h := walks_modify h
    obtain ⟨_, mid, hbase, hrest⟩ := walks_bind.mp h
    obtain ⟨rfl, rfl⟩ := eq_of_walks_pure hrest
    have hfound := found_of_walks base hbase hk hout
    refine ⟨rfl, hfound.constant.trans (Bool.and_false _).symm, hfound.grows, fun n hn hmax => ?_⟩
    cases hn with
    | base hn => exact hfound.reaches n hn hmax
  | .producerAccess name args argNames field, depth, k, out, out', type, h, hk, hout => by
    rw [analyzeNode] at h
    replace h := walks_modify h
    replace h := walks_modify h
    obtain ⟨types, mid, hargs, hrest⟩ := walks_bind.mp h
    obtain ⟨_, last, hcheck, hnext⟩ := walks_bind.mp hrest
    obtain ⟨rfl, rfl⟩ := eq_of_walks_pure hnext
    have hfound := found_of_walksAll args hargs hk hout
    obtain ⟨-, hconstant, hdepth⟩ := walks_checkCall hcheck
    refine ⟨rfl, ?_, hdepth ▸ hfound.grows, fun n hn hmax => ?_⟩
    · rw [hconstant, hfound.constant, Bool.false_and]
      exact (Bool.and_false _).symm
    · cases hn with
      | producer he hn => exact hdepth ▸ hfound.reaches _ he n hn hmax
  | .binary op l r, depth, k, out, out', type, h, hk, hout => by
    rw [analyzeNode] at h
    replace h := walks_modify h
    obtain ⟨_, mid, hl, hrest⟩ := walks_bind.mp h
    obtain ⟨_, last, hr, hnext⟩ := walks_bind.mp hrest
    have hleft := found_of_walks l hl hk hout
    have hright := found_of_walks r hr hk (hout.trans hleft.grows)
    have hend := walks_modify hnext
    obtain ⟨rfl, rfl⟩ := eq_of_walks_pure hend
    refine ⟨rfl, ?_, hleft.grows.trans hright.grows, fun n hn hmax => ?_⟩
    · exact hright.constant.trans (by rw [hleft.constant, isConstant, Bool.and_assoc])
    · cases hn with
      | left hn => exact (hleft.reaches n hn hmax).trans hright.grows
      | right hn => exact hright.reaches n hn hmax
  | .unary op a, depth, k, out, out', type, h, hk, hout => by
    rw [analyzeNode] at h
    replace h := walks_modify h
    obtain ⟨operand, mid, ha, hrest⟩ := walks_bind.mp h
    obtain ⟨rfl, rfl⟩ := eq_of_walks_pure hrest
    have hfound := found_of_walks a ha hk hout
    refine ⟨?_, hfound.constant, hfound.grows, fun n hn hmax => ?_⟩
    · rw [reported, hfound.type]
    · cases hn with
      | operand hn => exact hfound.reaches n hn hmax
  | .call name args argNames, depth, k, out, out', type, h, hk, hout => by
    rw [analyzeNode] at h
    replace h := walks_modify h
    replace h := walks_modify h
    obtain ⟨types, mid, hargs, hrest⟩ := walks_bind.mp h
    have hfound := found_of_walksAll args hargs hk hout
    have hend : type = reported reg (.call name args argNames) ∧ out'.isConstant = mid.isConstant ∧ SameDepth mid out' := by
      rw [reported, ← hfound.types]
      split at hrest
      · obtain ⟨_, last, hparse, hnext⟩ := walks_bind.mp hrest
        obtain ⟨-, rfl⟩ := walks_lift hparse
        obtain ⟨rfl, rfl⟩ := eq_of_walks_pure hnext
        exact ⟨(if_pos ‹_›).symm, rfl, rfl⟩
      · obtain ⟨entry, last, hcheck, hnext⟩ := walks_bind.mp hrest
        obtain ⟨rfl, rfl⟩ := eq_of_walks_pure hnext
        obtain ⟨rfl, hconstant, hdepth⟩ := walks_checkCall hcheck
        exact ⟨(if_neg ‹_›).symm, hconstant, hdepth⟩
    obtain ⟨htype, hconstant, hdepth⟩ := hend
    refine ⟨htype, ?_, hdepth ▸ hfound.grows, fun n hn hmax => ?_⟩
    · rw [hconstant, hfound.constant, Bool.false_and]
      exact (Bool.and_false _).symm
    · cases hn with
      | call he hn => exact hdepth ▸ hfound.reaches _ he n hn hmax
  | .index t i, depth, k, out, out', type, h, hk, hout => by
    rw [analyzeNode] at h
    replace h := walks_modify h
    replace h := walks_modify h
    obtain ⟨k', mid, hlookback, hrest⟩ := walks_bind.mp h
    obtain ⟨_, last, ht, hnext⟩ := walks_bind.mp hrest
    obtain ⟨_, final, hi, hlast⟩ := walks_bind.mp hnext
    obtain ⟨rfl, rfl⟩ := eq_of_walks_pure hlast
    obtain ⟨hconstant, hgrows, hmax', hout', hsum, hsame⟩ := walks_targetLookback hlookback hk hout
    have htarget := found_of_walks t ht hmax' hout'
    have hindex := found_of_walks i hi (Nat.zero_le _) (Nat.zero_le _)
    refine ⟨rfl, ?_, (hgrows.trans htarget.grows).trans hindex.grows, fun n hn hmax => ?_⟩
    · rw [hindex.constant, htarget.constant, hconstant, Bool.false_and, Bool.false_and]
      exact (Bool.and_false _).symm
    · cases hn with
      | index hn => exact hindex.reaches n hn hmax
      | offset hv hn =>
        refine (htarget.reaches n ?_ hmax).trans hindex.grows
        rcases hn.above_or_anew with hle | hanew
        · rwa [hsum _ _ rfl hv (hle.trans hmax)]
        · exact hanew k'
      | dynamic hno hn =>
        rw [← hsame hno] at hn
        exact (htarget.reaches n hn hmax).trans hindex.grows
  | .ternary c t e, depth, k, out, out', type, h, hk, hout => by
    rw [analyzeNode] at h
    replace h := walks_modify h
    replace h := walks_modify h
    obtain ⟨_, mid, hc, hrest⟩ := walks_bind.mp h
    obtain ⟨left, mid', ht, hnext⟩ := walks_bind.mp hrest
    obtain ⟨right, last, he, hlast⟩ := walks_bind.mp hnext
    obtain ⟨rfl, rfl⟩ := eq_of_walks_pure hlast
    have hcond := found_of_walks c hc hk hout
    have hout' := hout.trans hcond.grows
    have htrue := found_of_walks t ht hk hout'
    have hfalse := found_of_walks e he hk (hout'.trans htrue.grows)
    refine ⟨?_, ?_, (hcond.grows.trans htrue.grows).trans hfalse.grows, fun n hn hmax => ?_⟩
    · rw [reported, htrue.type, hfalse.type]
    · rw [hfalse.constant, htrue.constant, hcond.constant, isConstant, Bool.and_assoc, Bool.and_assoc, Bool.and_assoc]
    · cases hn with
      | condition hn => exact ((hcond.reaches n hn hmax).trans htrue.grows).trans hfalse.grows
      | trueBranch hn => exact (htrue.reaches n hn hmax).trans hfalse.grows
      | falseBranch hn => exact hfalse.reaches n hn hmax

theorem found_of_walksAll : ∀ (asts : List (Ast D)) {depth k : Nat} {out out' : Analysis} {types : List ExprType},
    Walks (analyzeNodes reg depth k asts) out types out' → k ≤ uintMax → k ≤ out.maxLookbackDepth →
    FoundAll reg k asts out types out'
  | [], depth, k, out, out', types, h, hk, hout => by
    rw [analyzeNodes] at h
    obtain ⟨rfl, rfl⟩ := eq_of_walks_pure h
    exact ⟨rfl, (Bool.and_true _).symm, Nat.le_refl _, fun e he => nomatch he⟩
  | ast :: asts, depth, k, out, out', types, h, hk, hout => by
    rw [analyzeNodes] at h
    obtain ⟨type, mid, hast, hrest⟩ := walks_bind.mp h
    obtain ⟨types, last, hasts, hnext⟩ := walks_bind.mp hrest
    obtain ⟨rfl, rfl⟩ := eq_of_walks_pure hnext
    have hfirst := found_of_walks ast hast hk hout
    have hrest := found_of_walksAll asts hasts hk (hout.trans hfirst.grows)
    refine ⟨?_, ?_, hfirst.grows.trans hrest.grows, fun e he n hn hmax => ?_⟩
    · rw [reportedList, hfirst.type, hrest.types]
    · rw [hrest.constant, hfirst.constant, areConstant, Bool.and_assoc]
    · rcases List.mem_cons.mp he with rfl | he
      · exact (hfirst.reaches n hn hmax).trans hrest.grows
      · exact hrest.reaches e he n hn hmax

end

end

end Cxpr.Analyze
