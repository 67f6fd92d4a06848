import Cxpr.Document.Parser

/-! Lowering a document tree to a model (`src/document.c`). The expression parser and the alias expander are parameters,
    allocations succeed, and source spans are left out of the model. -/

namespace Cxpr.Document

/-! ### Models -/

inductive DeclType where
  | inferred | number | bool | int | series | buffer
  deriving DecidableEq

inductive ElementType where
  | unknown | number | bool | int
  deriving DecidableEq

inductive BindingKind where
  | expr | state | stateUpdate
  deriving DecidableEq

/-- The targets of `cxpr_model_metadata_target_kind` that lowering names. -/
inductive MetadataTarget where
  | model | param | state | binding | output
  deriving DecidableEq

structure TypeInfo where
  declared : DeclType := .inferred
  element : ElementType := .unknown
  bufferSamples : Nat := 0
  deriving DecidableEq

structure Constant (D : Type) where
  name : Text
  source : Text
  expr : Ast D
  isCallParam : Bool
  declaredType : DeclType
  elementType : ElementType

structure Binding (D : Type) where
  kind : BindingKind
  name : Text
  source : Option Text
  expr : Option (Ast D)
  type : TypeInfo

structure RecordField (D : Type) where
  name : Text
  source : Text
  expr : Ast D

structure RecordFunction (D : Type) where
  name : Text
  params : List Text
  fields : List (RecordField D)

structure Metadata where
  name : Text
  body : Text
  targetKind : MetadataTarget
  targetName : Text
  deriving DecidableEq

structure HostBlock where
  kind : Text
  name : Text
  body : Text
  fields : List (Text × Text)
  children : List HostBlock

/-- A list of names with the types beside it: an array for each, filled up when a name is appended with its type. An
    entry that was never written is `none`. -/
structure TypedNames where
  names : List Text := []
  types : List (Option (DeclType × ElementType)) := []
  deriving DecidableEq

structure Model (D : Type) where
  name : Option Text := none
  uses : List (Text × Option Text) := []
  functions : List Text := []
  recordFunctions : List (RecordFunction D) := []
  inputs : TypedNames := {}
  constants : List (Constant D) := []
  bindings : List (Binding D) := []
  outputs : TypedNames := {}
  anonymousOutputs : List (Text × Ast D) := []
  metadatas : List Metadata := []
  hostBlocks : List HostBlock := []

abbrev Lowered (α : Type) := Except (Option Error) α

/-- `cxpr_document_set_error`. -/
def loweringError {α : Type} (message : String) : Lowered α := .error (some ⟨.syntaxError, message⟩)

def refused {α : Type} : Lowered α := .error none

def present {α : Type} : Option α → Lowered α
  | some a => .ok a
  | none => refused

/-- `cxpr_document_lower_trim_in_place`. -/
def lowerTrim (s : Text) : Text := (s.dropWhile isSpace).rdropWhile isSpace

def isDottedIdent (s : Text) : Bool := (s.splitOn '.').all isIdent

/-- `cxpr_document_lower_is_use_path`. -/
def isUsePath (s : Text) : Bool :=
  let segments := s.splitOn '/'
  let last := segments.getLastD []
  let last := if 5 < last.length && ".cxpr".toList.isSuffixOf last then last.take (last.length - 5) else last
  segments.dropLast.all isIdent && (isIdent last || (last.isEmpty && 1 < segments.length))

def parseDeclType (text : Option Text) : Option TypeInfo :=
  let element (inner : Text) : Option ElementType :=
    if "number".toList.isPrefixOf inner then some .number
    else if "bool".toList.isPrefixOf inner then some .bool
    else if "int".toList.isPrefixOf inner then some .int
    else none
  match text with
  | none | some [] => some {}
  | some text =>
    if text == "number".toList then some ⟨.number, .number, 0⟩
    else if text == "bool".toList then some ⟨.bool, .bool, 0⟩
    else if text == "int".toList then some ⟨.int, .int, 0⟩
    else if "series<".toList.isPrefixOf text then (element (text.drop 7)).map (⟨.series, ·, 0⟩)
    else if "buffer<".toList.isPrefixOf text then do
      let inner := text.drop 7
      let comma ← strchr inner ','
      let eq ← strchr (inner.drop comma) '='
      let samples := ((strtoul ((inner.drop comma).drop (eq + 1))).map (·.1)).getD 0
      if samples == 0 then none else (element inner).map (⟨.buffer, ·, samples⟩)
    else none

namespace TypedNames

def appendNameList (unique : Bool) (names : List Text) (list : Text) : Lowered (List Text) :=
  (strtok list ',').foldlM (fun names token =>
    let name := lowerTrim token
    if !isIdent name then loweringError "Invalid name in list"
    else .ok (if unique && names.contains name then names else names ++ [name])) names

/-- `cxpr_doc_model_append_typed_name_list`. -/
def append (list : TypedNames) (names : Option Text) (unique : Bool) (type : Option Text) : Lowered TypedNames := do
  let info ← present (parseDeclType type)
  let names ← appendNameList unique list.names (← present names)
  if names.length == list.names.length then return { list with names }
  else
    let old := list.types ++ List.replicate (list.names.length - list.types.length) none
    return ⟨names, old ++ List.replicate (names.length - list.names.length) (some (info.declared, info.element))⟩

end TypedNames

namespace Model
variable {D : Type}

def appendConstant (model : Model D) (node : Node D) (isCallParam : Bool) : Lowered (Model D) := do
  let name ← present node.name
  let source ← present node.text
  let expr ← present node.expression
  let info ← present (parseDeclType node.value)
  return { model with
    constants := model.constants ++ [⟨name, source, expr, isCallParam, info.declared, info.element⟩] }

def appendBinding (model : Model D) (kind : BindingKind) (node : Node D) : Lowered (Model D) := do
  let name ← present node.name
  let info ← present (parseDeclType node.value)
  let buffer := kind == .state && info.declared == .buffer
  if (node.text.isNone || node.expression.isNone) && !buffer then refused
  else if buffer && node.expression.isSome then refused
  else return { model with bindings := model.bindings ++ [⟨kind, name, node.text, node.expression, info⟩] }

def hasState (model : Model D) (name : Option Text) : Bool :=
  model.bindings.any fun b => b.kind == .state && name == some b.name

def appendMetadata (model : Model D) (name targetName : Text) (targetKind : MetadataTarget) (node : Node D) :
    Lowered (Model D) := do
  let body ← present node.text
  return { model with metadatas := model.metadatas ++ [⟨name, body, targetKind, targetName⟩] }

def lowerMetadataChildren (model : Model D) (owner : Node D) (name : Text) (targetKind : MetadataTarget) :
    Lowered (Model D) :=
  (owner.children.filter (·.kind == .metadata)).foldlM
    (fun model child => model.appendMetadata name (owner.name.getD []) targetKind child) model

def appendStructInputBlock (model : Model D) (node : Node D) : Lowered (Model D) := do
  let root := node.name.getD []
  if !isIdent root then loweringError "Invalid input struct name"
  else
    node.children.foldlM (fun model child =>
      let field := child.name.getD []
      if !isDottedIdent field then loweringError "Invalid input field name"
      else .ok { model with inputs.names := model.inputs.names ++ [root ++ '.' :: field] }) model

/-- The `CXPR_DOC_AST_OUTPUT_DECL` case of `cxpr_document_lower_node_to_model`. -/
def lowerOutput (model : Model D) (node : Node D) : Lowered (Model D) := do
  if node.expression.isSome && model.hasState node.name then loweringError "State updates must use ':=' assignments"
  else
    let model ← if node.expression.isSome then model.appendBinding .expr node else .ok model
    let model := { model with outputs := ← model.outputs.append node.name true node.value }
    if node.expression.isSome || !node.children.isEmpty then
      model.lowerMetadataChildren node "output".toList .output
    else return model

def appendUses (model : Model D) (items : Text) (base : Text) : Lowered (Model D) :=
  (items.splitOn ',').foldlM (fun model item =>
    let item := lowerTrim item
    if !isIdent item then loweringError "Invalid use group"
    else .ok { model with uses := model.uses ++ [(base ++ '/' :: item, none)] }) model

def findKeyword (text word : Text) : Option Nat :=
  Scan.find (fun _ c => isSpace c)
    (fun spaced rest => spaced && word.isPrefixOf rest && (rest.drop word.length).head?.all isSpace) true text

def lowerUseClause (model : Model D) (text : Text) : Lowered (Model D) := do
  let cursor := lowerTrim text
  let (path, alias_) ← match strstr cursor " as ".toList with
    | none => pure (cursor, none)
    | some i =>
      let alias_ := lowerTrim (cursor.drop (i + 4))
      if isIdent alias_ then pure (lowerTrim (cursor.take i), some alias_) else loweringError "Invalid use name"
  if isUsePath path then return { model with uses := model.uses ++ [(path, alias_)] }
  else loweringError "Invalid use name"

def lowerUseGroup (model : Model D) (text : Text) : Lowered (Model D) :=
  match strchr text '}' with
  | none => loweringError "Invalid use group"
  | some close =>
    match keyword (lowerTrim (text.drop (close + 1))) "from".toList with
    | none => loweringError "Invalid use group"
    | some base =>
      if isUsePath (lowerTrim base) then model.appendUses ((text.take close).drop 1) (lowerTrim base)
      else loweringError "Invalid use group"

def lowerUse (model : Model D) (node : Node D) : Lowered (Model D) := do
  let text := lowerTrim (← present node.text)
  if text.head? == some '{' then model.lowerUseGroup text
  else
    match findKeyword text "from".toList with
    | some i =>
      let base := lowerTrim (text.drop (i + 4))
      if isUsePath base then model.appendUses (text.take i) base else loweringError "Invalid use group"
    | none => model.lowerUseClause text

/-! ### Functions -/

/-- `cxpr_document_lower_parse_function_signature`. -/
def parseFunctionSignature (signature : Text) : Lowered (Text × List Text) := do
  let text := lowerTrim signature
  match strchr text '(', strrchr text ')' with
  | some opening, some closing =>
    if closing < opening || closing + 1 ≠ text.length then
      loweringError "Expected function signature: fn name(args)"
    else
      let name := lowerTrim (text.take opening)
      if !isIdent name then loweringError "Invalid function name"
      else
        let args := lowerTrim ((text.take closing).drop (opening + 1))
        let params := (strtok args ',').map lowerTrim
        if params.all isIdent then return (name, params) else loweringError "Invalid function parameter"
  | _, _ => loweringError "Expected function signature: fn name(args)"

/-- The library that lowering calls: `cxpr_expr_ast_parse` and `cxpr_expand_aliases`. -/
structure Library (D : Type) where
  exprAstParse : Text → Except Error (Ast D)
  expandAliases : Text → List (Text × Text) → Except Error Text

variable (lib : Library D)

def lowerParseExpr (text : Text) : Lowered (Ast D) :=
  if text.isEmpty then loweringError "Expected expression" else (lib.exprAstParse text).mapError some

def recordReturnField (aliases : List (Text × Text)) (item : Text) : Lowered (RecordField D) := do
  let (name, source) := match strchr item '=' with
    | some eq => (lowerTrim (item.take eq), lowerTrim (item.drop (eq + 1)))
    | none => (item, item)
  if !isIdent name then loweringError "Invalid record return field"
  else
    let expanded ← if aliases.isEmpty then pure source else (lib.expandAliases source aliases).mapError some
    return ⟨name, source, ← lowerParseExpr lib expanded⟩

def parseRecordReturnFields (body : Text) (aliases : List (Text × Text)) : Lowered (List (RecordField D)) := do
  let rest := lowerTrim body
  let items ← if rest.head? == some '{' then
      match strrchr rest '}' with
      | some close =>
        if close + 1 = rest.length then pure (lowerTrim ((rest.take close).drop 1))
        else loweringError "Expected record return: return \x7b ... \x7d"
      | none => loweringError "Expected record return: return \x7b ... \x7d"
    else pure rest
  let fields ← (((strtok items ',').map lowerTrim).filter (! ·.isEmpty)).mapM (recordReturnField lib aliases)
  if fields.isEmpty then loweringError "Record return requires fields" else return fields

def appendRecordFunction (model : Model D) (signature : Option Text) (fields : Lowered (List (RecordField D))) :
    Lowered (Model D) := do
  let (name, params) ← parseFunctionSignature (← present signature)
  return { model with recordFunctions := model.recordFunctions ++ [⟨name, params, ← fields⟩] }

def appendFunction (model : Model D) (node : Node D) : Lowered (Model D) := do
  let signature ← present node.name
  let body ← present node.text
  if node.expression.isNone || (body.dropWhile isSpace).head? == some '{' || hasTopLevelComma body then
    model.appendRecordFunction node.name (parseRecordReturnFields lib body [])
  else return { model with functions := model.functions ++ [signature ++ " => ".toList ++ body] }

/-- `cxpr_document_function_block_is_lowerable`. -/
def functionBlockIsLowerable (node : Node D) : Bool :=
  match node.children with
  | [body] =>
    body.kind == .functionBody &&
      match body.children.getLast? with
      | some last =>
        last.kind == .returned && last.text.isSome &&
          body.children.dropLast.all fun child => child.kind == .localBinding && child.expression.isSome
      | none => false
  | _ => false

def blockAliases : List (Node D) → List (Text × Text) → Lowered (List (Text × Text))
  | [], aliases => return aliases
  | child :: rest, aliases =>
    if child.kind == .localBinding then
      match lib.expandAliases (child.text.getD []) aliases with
      | .ok expanded => blockAliases rest (aliases ++ [(child.name.getD [], expanded)])
      | .error _ => .error (some ⟨.outOfMemory, "Out of memory"⟩)
    else blockAliases rest aliases

def appendBlockFunction (model : Model D) (node : Node D) : Lowered (Model D) := do
  if !functionBlockIsLowerable node then refused
  else
    let body := (node.children.head?.map (·.children)).getD []
    let aliases ← blockAliases lib body []
    match body.getLast? with
    | none => loweringError "Function block requires a return statement"
    | some last =>
      let text := last.text.getD []
      if last.expression.isSome then
        let expanded ← (lib.expandAliases text aliases).mapError some
        let signature ← present node.name
        return { model with functions := model.functions ++ [signature ++ " => ".toList ++ expanded] }
      else
        let fields ← parseRecordReturnFields lib text aliases
        model.appendRecordFunction node.name (.ok fields)

mutual

/-- A host block with its fields and its blocks (`cxpr_doc_model_append_host_block_fields`). -/
def hostBlock : Node D → Lowered HostBlock
  | ⟨_, _, kind, name, body, _, children⟩ => do
    let (fields, blocks) ← hostBlockFields children
    return ⟨← present kind, name.getD [], ← present body, fields, blocks⟩

def hostBlockFields : List (Node D) → Lowered (List (Text × Text) × List HostBlock)
  | [] => return ([], [])
  | child :: rest => do
    if child.kind == .hostBlock then
      let block ← hostBlock child
      let (fields, blocks) ← hostBlockFields rest
      return (fields, block :: blocks)
    else
      let (fields, blocks) ← hostBlockFields rest
      if child.kind == .hostField then return ((← present child.name, ← present child.text) :: fields, blocks)
      else return (fields, blocks)

end

/-- The `CXPR_DOC_AST_MODEL_DECL` case: the name, and the metadata once as such and once as a host block. -/
def lowerModelDecl (model : Model D) (node : Node D) : Lowered (Model D) :=
  let name := node.name.getD []
  (node.children.filter (·.kind == .metadata)).foldlM (fun model child => do
    let model ← model.appendMetadata "model".toList name .model child
    let (fields, blocks) ← hostBlockFields child.children
    return { model with
      hostBlocks := model.hostBlocks ++ [⟨"model".toList, name, ← present child.text, fields, blocks⟩] })
    { model with name := some name }

mutual

/-- `cxpr_document_lower_node_to_model`. -/
def lowerNode (model : Model D) : Node D → Lowered (Model D)
  | ⟨kind, span, name, value, text, expression, children⟩ => do
    let node : Node D := ⟨kind, span, name, value, text, expression, children⟩
    match kind with
    | .file | .paramBlock | .stateBlock | .outputBlock => lowerChildren model children
    | .inputBlock =>
      if (name.getD []).isEmpty then lowerChildren model children else model.appendStructInputBlock node
    | .hostBlock => return { model with hostBlocks := model.hostBlocks ++ [← hostBlock node] }
    | .modelDecl => model.lowerModelDecl node
    | .use => model.lowerUse node
    | .functionDecl =>
      if children.isEmpty then model.appendFunction lib node else model.appendBlockFunction lib node
    | .inputDecl =>
      if expression.isSome then do
        (← model.appendConstant node true).lowerMetadataChildren node "param".toList .param
      else return { model with inputs := ← model.inputs.append name false value }
    | .paramDecl => do (← model.appendConstant node false).lowerMetadataChildren node "param".toList .param
    | .stateDecl => do (← model.appendBinding .state node).lowerMetadataChildren node "binding".toList .state
    | .stateUpdate => model.appendBinding .stateUpdate node
    | .initialStateUpdate => do (← lowerChildren model children).appendBinding .stateUpdate node
    | .binding => do (← model.appendBinding .expr node).lowerMetadataChildren node "binding".toList .binding
    | .outputStateUpdate => do
      let model ← model.appendBinding .stateUpdate node
      return { model with outputs := ← model.outputs.append name true value }
    | .outputDecl => model.lowerOutput node
    | .anonymousOutput => do
      return { model with anonymousOutputs := model.anonymousOutputs ++ [(← present text, ← present expression)] }
    | .hostField | .metadata | .functionBody | .localBinding | .returned =>
      loweringError "Document AST node cannot be lowered in this context"

/-- `cxpr_document_lower_children_to_model`. -/
def lowerChildren (model : Model D) : List (Node D) → Lowered (Model D)
  | [] => return model
  | node :: nodes => do lowerChildren (← lowerNode model node) nodes

end

end Model

/-- `cxpr_document_lower_model_ast_direct`. -/
def lowerModel {D : Type} (lib : Model.Library D) (root : Node D) : Except Error (Model D) :=
  match Model.lowerNode lib {} root with
  | .ok model => .ok model
  | .error e => .error (e.getD ⟨.outOfMemory, "Out of memory"⟩)

end Cxpr.Document
