import Cxpr.Lib.LittleEndian
import Cxpr.Source.Canonical
import Cxpr.Value

/-! The source plans of a provider (`src/source/plan.c`, `src/source/canonical.c`, `src/runtime/call.c`). -/

namespace Cxpr.Source
variable {D : Type} [Double D]

structure ScopeSpec where
  paramName : Option String
  optional : Bool
  deriving DecidableEq

def ScopeSpec.param (scope : ScopeSpec) : Option String := scope.paramName.filter (· ≠ "")

structure FnSpec where
  sourceMinArgs : Nat
  sourceMaxArgs : Nat
  paramCount : Nat
  returnType : ValueType
  /-- `CXPR_PROVIDER_FN_SOURCE_INPUT` -/
  sourceInput : Bool
  /-- `CXPR_PROVIDER_FN_RECORD_OUTPUT` -/
  recordOutput : Bool
  scope : Option ScopeSpec

inductive Materialization where
  | unspecified | first | last | min | max | sum | mean | linear
  deriving DecidableEq

structure SourceSpec where
  scope : Option ScopeSpec
  valueType : ValueType
  flags : UInt32
  materialization : Materialization

/-- One parameter of `cxpr_expr_param_spec`: its name, and whether its kind is `CXPR_EXPR_ARG_SCALAR_SOURCE`. -/
structure ParamEntry where
  name : String
  scalarSource : Bool

/-- `cxpr_provider`, with the callbacks of its table. -/
structure Provider where
  name : String
  fnSpecFind : String → Option FnSpec
  sourceSpecFind : String → Option SourceSpec
  exprParamSpec : String → Option (List ParamEntry)

def Provider.exprParamSpecFor (p : Provider) (name : String) : Option (List ParamEntry) :=
  match p.exprParamSpec name with
  | some spec => some spec
  | none => do
    let source ← p.sourceSpecFind name
    let scope ← source.scope
    let param ← scope.param
    some [⟨param, false⟩]

/-! ### Calls -/

structure CallSite (D : Type) where
  name : String
  args : List (Ast D)
  argNames : List (Option String)
  field : Option String

namespace CallSite

/-- `cxpr_source_plan_arg_name` -/
def argName (call : CallSite D) (i : Nat) : Option String :=
  if i < call.args.length then call.argNames[i]?.join else none

/-- `cxpr_source_plan_positional_count` -/
def positionalCount (call : CallSite D) : Nat :=
  ((List.range call.args.length).takeWhile fun i => (call.argName i).isNone).length

/-- `cxpr_source_plan_find_named_arg`. -/
def findNamedArg (call : CallSite D) (name : String) : Option Nat :=
  if name = "" then none else (List.range call.args.length).find? fun i => call.argName i = some name

end CallSite

/-- `cxpr_expr_ast_string_value`. -/
def stringValue : Ast D → Option String
  | .string v => if v = "" then none else some v
  | _ => none

/-- `cxpr_runtime_call_scope_spec` -/
def scopeSpec (p : Provider) (name : String) : Option ScopeSpec :=
  let ofFn := (p.fnSpecFind name).bind fun spec => spec.scope.filter (·.param.isSome)
  let ofSource := (p.sourceSpecFind name).bind fun spec => spec.scope.filter (·.param.isSome)
  ofFn.or ofSource

/-- `cxpr_runtime_call_numeric_value_arg_count` -/
def numericValueArgCount (p : Provider) (call : CallSite D) (raw : Nat) : Nat :=
  match p.exprParamSpecFor call.name with
  | none => raw
  | some spec =>
    let counted (i : Nat) : Bool :=
      let index := match call.argName i with
        | none => some i
        | some name => spec.findIdx? fun (entry : ParamEntry) => entry.name == name
      match index with
      | none => false
      | some index => !(spec[index]?.any ParamEntry.scalarSource)
    min ((List.range (min call.args.length raw)).countP counted) raw

/-- `cxpr_runtime_call`: the scope, and how many arguments are numbers. -/
structure RuntimeCall where
  scopeValue : Option String
  valueArgCount : Nat

/-- `cxpr_parse_runtime_call_provider` on a call. The scope is the text of the scope's own argument, or else the last
    argument when that is a text. -/
def parseRuntimeCall (p : Provider) (call : CallSite D) : RuntimeCall :=
  let argc := call.args.length
  let named := do
    let scope ← scopeSpec p call.name
    let param ← scope.param
    let i ← call.findNamedArg param
    call.args[i]?.bind stringValue
  let scopeValue := named.or (call.args.getLast?.bind stringValue)
  match scopeValue with
  | some scope => ⟨some scope, numericValueArgCount p call (argc - 1)⟩
  | none => ⟨none, numericValueArgCount p call argc⟩

/-- `cxpr_provider_runtime_call_arg` -/
def runtimeCallArg (p : Provider) (call : CallSite D) (index : Nat) : Option (Ast D) :=
  match (p.exprParamSpecFor call.name).bind (·[index]?) with
  | none => call.args[index]?
  | some entry =>
    let positional := call.positionalCount
    if index < positional then call.args[index]?
    else
      let later := (List.range call.args.length).drop positional
      (later.find? fun i => call.argName i = some entry.name).bind (call.args[·]?)

/-- `cxpr_source_plan_numeric_param_count` -/
def numericParamCount (p : Provider) (name : String) (fallback : Nat) : Nat :=
  match p.exprParamSpecFor name with
  | none => fallback
  | some spec => spec.countP (!·.scalarSource)

/-- `cxpr_source_plan_numeric_arg` -/
def numericArg (p : Provider) (call : CallSite D) (index : Nat) : Option (Ast D) :=
  match p.exprParamSpecFor call.name with
  | none => runtimeCallArg p call index
  | some spec =>
    (((List.range spec.length).filter fun i => !(spec[i]?.any ParamEntry.scalarSource))[index]?).bind (runtimeCallArg p call)

/-- `cxpr_resample_interval` -/
structure Interval where
  durationNs : Nat
  canonical : String
  deriving DecidableEq

def unitFactor : String → Option Nat
  | "ns" => some 1
  | "us" => some 1000
  | "ms" => some 1000000
  | "s" => some 1000000000
  | "m" => some 60000000000
  | "h" => some 3600000000000
  | "d" => some 86400000000000
  | _ => none

def appendDigit (count : Nat) (c : Char) : Option Nat :=
  let digit := c.toNat - '0'.toNat
  if count > (2 ^ 64 - 1 - digit) / 10 then none else some (count * 10 + digit)

/-- `cxpr_parse_fixed_duration` -/
def parseFixedDuration (text : String) : Option Interval := do
  let digits := text.toList.takeWhile Char.isDigit
  let unit := String.ofList (text.toList.dropWhile Char.isDigit)
  let count ← digits.foldlM appendDigit 0
  let factor ← unitFactor unit
  if count = 0 ∨ count > (2 ^ 63 - 1) / factor then none
  else some ⟨count * factor, toString count ++ unit⟩

/-- `cxpr_source_plan_kind`. -/
inductive PlanKind where
  | field | indicator | smoothing | expression
  deriving DecidableEq

/-- The fields of a `cxpr_source_plan_node`, but for its source. -/
structure NodeInfo (D : Type) where
  kind : PlanKind
  name : String
  fieldName : Option String := none
  scopeValue : Option String := none
  intervalValue : Option String := none
  intervalDurationNs : Nat := 0
  valueType : ValueType := .number
  argSlots : List Nat := []
  lookbackSlot : Option Nat := none
  nodeId : UInt64 := 0
  requirementId : UInt64 := 0
  expressionAst : Option (Ast D) := none

/-- `cxpr_source_plan_node`, without a source or over one. -/
inductive Node (D : Type) where
  | leaf (info : NodeInfo D)
  | wrapping (info : NodeInfo D) (source : Node D)

namespace Node

def info : Node D → NodeInfo D
  | leaf info => info
  | wrapping info _ => info

def update (f : NodeInfo D → NodeInfo D) : Node D → Node D
  | leaf info => leaf (f info)
  | wrapping info source => wrapping (f info) source

def leafInfo : Node D → NodeInfo D
  | leaf info => info
  | wrapping _ source => source.leafInfo

end Node

/-- `cxpr_source_canonical_slot_append` -/
def slotText (slot : Nat) : String := "$" ++ toString slot

def scopeText (info : NodeInfo D) : String := (info.scopeValue.map ("@tf:" ++ ·)).getD ""

def fieldText (info : NodeInfo D) : String := (info.fieldName.map ("." ++ ·)).getD ""

def lookbackText (info : NodeInfo D) : String := (info.lookbackSlot.map fun slot => "[" ++ slotText slot ++ "]").getD ""

def infoText (info : NodeInfo D) (source : Option String) : Option String :=
  match info.kind with
  | .field => some ("field:" ++ info.name ++ scopeText info)
  | .indicator =>
    some ("indicator:" ++ info.name ++ "(" ++ ", ".intercalate (info.argSlots.map slotText) ++ ")" ++ scopeText info ++ fieldText info)
  | .smoothing => do
    let nested ← source
    some ("smooth:" ++ info.name ++ "(" ++ nested ++ String.join (info.argSlots.map (", " ++ slotText ·)) ++ ")")
  | .expression => some ("expr:" ++ info.name)

/-- `cxpr_source_plan_node_canonical_build` -/
def canonicalBuild : Node D → Option String
  | .leaf info => do
    let text ← infoText info none
    some (text ++ lookbackText info)
  | .wrapping info source => do
    let text ← infoText info (canonicalBuild source)
    some (text ++ lookbackText info)

def hashByte (hash : UInt64) (byte : UInt8) : UInt64 := (hash ^^^ byte.toUInt64) * 1099511628211

/-- `cxpr_source_plan_stable_hash` -/
def stableHash (text : String) : UInt64 := text.toUTF8.data.toList.foldl hashByte 1469598103934665603

/-- `cxpr_source_plan_requirement_mix` -/
def requirementMix (hash : UInt64) (bytes : List UInt8) : UInt64 := bytes.foldl hashByte hash

/-- The number of a `cxpr_value_type`. -/
def typeCode : ValueType → Nat
  | .number => 0
  | .bool => 1
  | .struct => 2
  | .string => 3
  | .null => 4
  | .timestamp => 5
  | .duration => 6
  | .array => 7
  | .int64 => 8

/-- `cxpr_source_plan_finalize_node_canonical` -/
def finalizeNodeCanonical (node : Node D) : Option (Node D) := do
  let text ← canonicalBuild node
  let requirement ← canonicalBuild (node.update fun info => { info with lookbackSlot := none })
  let nodeId := stableHash text
  let requirementId := stableHash requirement
  if nodeId = 0 ∨ requirementId = 0 then none
  else some (node.update fun info => { info with nodeId, requirementId })

/-- What `cxpr_source_plan_apply_provider_identity` does at the leaf. -/
def identify (p : Provider) (info : NodeInfo D) : NodeInfo D :=
  let ofFn := (p.fnSpecFind info.name).map FnSpec.returnType
  let valueType := (((p.sourceSpecFind info.name).map SourceSpec.valueType).or ofFn).getD .number
  let named := requirementMix info.requirementId (p.name.toUTF8.data.toList ++ [0])
  let typed := requirementMix named (LittleEndian.write 4 (typeCode valueType))
  { info with valueType, requirementId := requirementMix typed (LittleEndian.write 8 info.intervalDurationNs) }

/-- `cxpr_source_plan_apply_provider_identity` -/
def applyProviderIdentity (p : Provider) : Node D → Node D
  | .leaf info => .leaf (identify p info)
  | .wrapping info source => .wrapping info (applyProviderIdentity p source)

/-! ### Parsing -/

abbrev Parse (D α : Type) := OptionT (StateM (List (Option (Ast D)))) α

/-- `cxpr_source_plan_bound_arg_append` -/
def boundArgAppend (arg : Option (Ast D)) : Parse D Nat := fun bound => (some bound.length, bound ++ [arg])

def attempt {α : Type} (m : Parse D α) : Parse D (Option α) := fun bound => ((some (m bound).1), (m bound).2)

def finalize (node : Node D) : Parse D (Node D) := OptionT.mk (pure (finalizeNodeCanonical node))

/-- `cxpr_source_plan_node_set_resample_interval` -/
def setResampleInterval (interval : Interval) (info : NodeInfo D) : NodeInfo D :=
  { info with
    scopeValue := some interval.canonical
    intervalValue := some interval.canonical
    intervalDurationNs := interval.durationNs }

/-- The scope of a node: `cxpr_source_plan_node_set_timeframe` when the scope's name is `timeframe`, else
    `cxpr_source_plan_node_set_scope_value`. -/
def setScope (scope : Option ScopeSpec) (text : String) (info : NodeInfo D) : NodeInfo D :=
  if (scope.bind ScopeSpec.paramName) = some "timeframe" then
    match parseFixedDuration text with
    | some interval => setResampleInterval interval info
    | none => { info with scopeValue := some text }
  else { info with scopeValue := some text }

def setScope? (scope : Option ScopeSpec) (text : Option String) (info : NodeInfo D) : NodeInfo D :=
  match text with
  | some text => setScope scope text info
  | none => info

/-- `cxpr_source_plan_ast_has_series_reference` -/
def hasSeriesReference (p : Provider) : Ast D → Bool
  | .identifier name => (p.sourceSpecFind name).isSome
  | .call .. | .producerAccess .. => true
  | .binary _ l r => hasSeriesReference p l || hasSeriesReference p r
  | .unary _ a => hasSeriesReference p a
  | .index target _ => hasSeriesReference p target
  | .ternary c t e => hasSeriesReference p c || hasSeriesReference p t || hasSeriesReference p e
  | _ => false

def sourceArg (p : Provider) (call : CallSite D) (sourceArgCount : Nat) : Option (Nat × Bool) :=
  match (p.fnSpecFind call.name).filter FnSpec.sourceInput with
  | none => none
  | some spec =>
    match call.findNamedArg "source" with
    | some i => some (i, false)
    | none =>
      if 1 + spec.sourceMinArgs ≤ sourceArgCount ∧ sourceArgCount ≤ 1 + spec.sourceMaxArgs ∧
          call.positionalCount = sourceArgCount then some (0, true)
      else none

def parseOver (p : Provider) (call : CallSite D) (timeframe : Option String) (explicitPositional : Bool)
    (child : Node D) : Parse D (Node D) := do
  let fnSpec := p.fnSpecFind call.name
  let inherits := timeframe.isSome && child.info.scopeValue.isNone &&
    (child.info.kind == .field || child.info.kind == .indicator)
  let child ← if inherits then finalize (child.update (setScope? (fnSpec.bind FnSpec.scope) timeframe)) else pure child
  let count := numericParamCount p call.name ((fnSpec.map FnSpec.paramCount).getD 0)
  let argSlots ← (List.range count).mapM fun index => do
    let arg := if explicitPositional then call.args[index + 1]? else numericArg p call index
    match arg with
    | none => failure
    | some arg => boundArgAppend (some arg)
  pure (.wrapping
    { kind := if (fnSpec.map FnSpec.recordOutput).getD false then .indicator else .smoothing
      name := call.name, fieldName := call.field.filter (· ≠ ""), scopeValue := timeframe, argSlots } child)

def parseIndicator (p : Provider) (call : CallSite D) (runtime : RuntimeCall) : Parse D (Node D) := do
  let argSlots ← (List.range runtime.valueArgCount).mapM fun index => boundArgAppend (runtimeCallArg p call index)
  let info : NodeInfo D := { kind := .indicator, name := call.name, fieldName := call.field.filter (· ≠ ""), argSlots }
  pure (.leaf (setScope? ((p.fnSpecFind call.name).bind FnSpec.scope) runtime.scopeValue info))

/-- `cxpr_source_plan_parse_function_source`. -/
def parseFunctionSource (p : Provider) (call : CallSite D) (parsers : List (Parse D (Node D))) : Parse D (Node D) := do
  let runtime := parseRuntimeCall p call
  let sourceArgCount := if runtime.scopeValue.isSome then call.args.length - 1 else call.args.length
  match (p.sourceSpecFind call.name).filter fun _ => runtime.valueArgCount = 0 with
  | some spec => pure (.leaf (setScope? spec.scope runtime.scopeValue { kind := .field, name := call.name }))
  | none =>
    match sourceArg p call sourceArgCount with
    | none => parseIndicator p call runtime
    | some (i, explicitPositional) =>
      -- A source that cannot be parsed makes the call an indicator; the arguments it has bound stay.
      let child ← attempt (parsers[i]?.getD failure)
      match child with
      | some child => parseOver p call runtime.scopeValue explicitPositional child
      | none => parseIndicator p call runtime

/-- The sources that `cxpr_resample_call_parse` takes. -/
def resamplable : Ast D → Bool
  | .identifier _ | .fieldAccess _ _ | .fieldOf _ _ | .chainAccess _ | .producerAccess .. | .call .. => true
  | _ => false

/-- `cxpr_resample_call_parse`. -/
def resampleInterval (args : List (Ast D)) (argNames : List (Option String)) : Option Interval :=
  let call : CallSite D := ⟨"resample", args, argNames, none⟩
  match args with
  | [source, .string every] =>
    if (call.argName 0).isSome ∨ ¬ (call.argName 1).all (· = "every") ∨ !resamplable source then none
    else parseFixedDuration every
  | _ => none

/-- `cxpr_source_plan_parse_resample`. -/
def parseResample (interval : Option Interval) (parsers : List (Parse D (Node D))) : Parse D (Node D) :=
  match interval with
  | none => failure
  | some interval => do
    let node ← parsers[0]?.getD failure
    if node.info.scopeValue.isSome then failure else pure (node.update (setResampleInterval interval))

/-- The last case of `cxpr_source_plan_node_parse`. -/
def parseExpression (p : Provider) (ast : Ast D) : Parse D (Node D) :=
  match if hasSeriesReference p ast then renderAstCanonical ast else none with
  | none => failure
  | some text => finalize (.leaf { kind := .expression, name := text, expressionAst := some ast })

mutual

def nodeParse (p : Provider) : Ast D → Parse D (Node D)
  | .identifier name =>
    if (p.sourceSpecFind name).isSome then finalize (.leaf { kind := .field, name }) else failure
  | .index target index => do
    let node ← nodeParse p target
    let slot ← boundArgAppend (some index)
    finalize (node.update fun info => { info with lookbackSlot := some slot })
  | .call name args argNames => do
    let node ← if name = "resample" then parseResample (resampleInterval args argNames) (nodeParsers p args)
      else parseFunctionSource p ⟨name, args, argNames, none⟩ (nodeParsers p args)
    finalize node
  | .producerAccess name args argNames field => do
    let node ← parseFunctionSource p ⟨name, args, argNames, some field⟩ (nodeParsers p args)
    finalize node
  | ast => parseExpression p ast

def nodeParsers (p : Provider) : List (Ast D) → List (Parse D (Node D))
  | [] => []
  | a :: as => nodeParse p a :: nodeParsers p as

end

/-- `cxpr_source_plan_ast` -/
structure Plan (D : Type) where
  root : Node D
  boundArgs : List (Option (Ast D))

/-- `cxpr_parse_provider_source_plan_ast` -/
def parseProviderSourcePlan (p : Provider) (ast : Ast D) : Option (Plan D) :=
  match nodeParse p ast [] with
  | (some node, boundArgs) => some ⟨applyProviderIdentity p node, boundArgs⟩
  | (none, _) => none

end Cxpr.Source
