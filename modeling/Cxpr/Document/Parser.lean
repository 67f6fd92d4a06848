import Cxpr.Ast
import Cxpr.Document.Text

/-! The document parser (`src/ast/document/parser.c`): statements are cut out line by line and parsed one by one into the
    nodes of a tree. The expression parser is a parameter; allocations succeed. A failure without an error is one that
    leaves the caller's error unset. -/

namespace Cxpr.Document

inductive Kind where
  | file | hostBlock | hostField | modelDecl | use | inputDecl | inputBlock | paramDecl | paramBlock | functionDecl
  | functionBody | localBinding | returned | stateDecl | stateBlock | stateUpdate | initialStateUpdate | binding
  | outputDecl | outputBlock | outputStateUpdate | anonymousOutput | metadata
  deriving DecidableEq

structure SourcePos where
  offset : Nat
  line : Nat
  column : Nat
  deriving DecidableEq

structure SourceSpan where
  start : SourcePos
  stop : SourcePos
  deriving DecidableEq

structure Node (D : Type) where
  kind : Kind
  span : SourceSpan
  name : Option Text := none
  value : Option Text := none
  text : Option Text := none
  expression : Option (Ast D) := none
  children : List (Node D) := []

/-- `cxpr_error` with its place. -/
structure ParseError where
  error : Error
  line : Nat
  column : Nat
  deriving DecidableEq

abbrev Parsed (α : Type) := Except (Option ParseError) α

/-- `cxpr_doc_ast_parser`. -/
structure Parser (D : Type) where
  source : Text
  modelExtension : Bool
  exprAstParse : Text → Except ParseError (Ast D)

/-- `cxpr_doc_ast_set_error` for a syntax error. -/
def syntaxError {α : Type} (message : String) (line column : Nat) : Parsed α :=
  .error (some ⟨⟨.syntaxError, message⟩, line, column⟩)

def pos (source : Text) (offset : Nat) : SourcePos :=
  let offset := min offset source.length
  let (line, column) := (source.take offset).foldl
    (fun (line, column) c => if c == '\n' then (line + 1, 0) else (line, column + 1)) (1, 0)
  ⟨offset, line, column⟩

namespace Parser
variable {D : Type} (p : Parser D)

def span (start stop : Nat) : SourceSpan := ⟨pos p.source start, pos p.source stop⟩

def parseExpr (text : Text) (line column : Nat) : Parsed (Ast D) :=
  if text.isEmpty then syntaxError "Expected expression" line column
  else
    match p.exprAstParse text with
    | .ok ast => .ok ast
    | .error inner => .error (some ⟨inner.error, line + (inner.line - 1), column + (inner.column - 1)⟩)

/-- `cxpr_doc_ast_split_decl_head`. -/
def splitDeclHead (head : Text) (stripParam : Bool) (line column : Nat) : Parsed (Text × Option Text) := do
  let (name, type) ← match topLevelChar head ':' with
    | none => pure (head, none)
    | some colon =>
      let type := trim (head.drop (colon + 1))
      if typeValid type then pure (head.take colon, some type)
      else syntaxError "Invalid declaration type" line (column + colon + 2)
  let name := trim name
  let name := if stripParam && name.head? == some '$' then name.drop 1 else name
  if isIdent name then return (name, type) else syntaxError "Invalid symbol name" line column

def metadataNode (text : Text) (span : SourceSpan) : Node D :=
  { kind := .metadata, span, name := some "metadata".toList, text := some text }

/-- `cxpr_doc_ast_assign_name_expr`. -/
def assignNameExpr (node : Node D) (statement : Text) (stripParam : Bool) (offset line column : Nat) :
    Parsed (Node D) := do
  match topLevelChar statement '=' with
  | none => syntaxError "Expected '='" line column
  | some eq =>
    let after := statement.drop (eq + 1)
    let expr := trim after
    let metadataOpen := if expr.head? == some '{' then none else strchr expr '{'
    let text := match metadataOpen with
      | some i => trim (expr.take i)
      | none => expr
    let (name, type) ← splitDeclHead (trim (statement.take eq)) stripParam line column
    if type.any ("buffer<".toList.isPrefixOf ·) then
      syntaxError "Buffer declarations cannot have an initializer" line column
    else
      let expression ← p.parseExpr text line column
      let node := { node with name := some name, value := type, text := some text, expression := some expression }
      match metadataOpen with
      | none => return node
      | some i =>
        match strrchr (expr.drop i) '}' with
        | none => syntaxError "Expected metadata block after assignment" line column
        | some close =>
          let start := offset + (eq + 1 + indent after + i)
          let body := trim (((expr.drop i).take close).drop 1)
          return { node with children := node.children ++ [metadataNode body (p.span start (start + close + 1))] }

def assignNameUpdate (node : Node D) (statement : Text) (line column : Nat) : Parsed (Node D) := do
  match strstr statement ":=".toList with
  | none => syntaxError "Expected ':='" line column
  | some op =>
    let name := trim (statement.take op)
    let expr := trim (statement.drop (op + 2))
    if !isIdent name then syntaxError "Invalid state update name" line column
    else
      let expression ← p.parseExpr expr line column
      return { node with name := some name, text := some expr, expression := some expression }

/-- `cxpr_doc_ast_assign_initial_state_update`. -/
def assignInitialStateUpdate (node : Node D) (statement : Text) (op initial : Nat) (line column : Nat) :
    Parsed (Node D) := do
  let name := trim (statement.take op)
  let updateExpr := trim ((statement.drop (op + 2)).take initial)
  let initialExpr := trim ((statement.drop (op + 2)).drop (initial + "initial".length))
  if !isIdent name then syntaxError "Invalid state update name" line column
  else if updateExpr.isEmpty || initialExpr.isEmpty then
    syntaxError "Expected expressions before and after 'initial'" line column
  else
    let expression ← p.parseExpr updateExpr line column
    let initialExpression ← p.parseExpr initialExpr line column
    let declaration : Node D :=
      { kind := .stateDecl, span := node.span, name := some name, text := some initialExpr,
        expression := some initialExpression }
    return { node with
      name := some name, text := some updateExpr, expression := some expression, children := [declaration] }

/-- One entry of `cxpr_doc_ast_parse_comma_or_line_decls`. -/
def parseDecl (childKind : Kind) (params : Bool) (entry : Text) (offset stop : Nat) : Parsed (Node D) := do
  let child : Node D := { kind := childKind, span := p.span offset stop }
  let line := child.span.start.line
  let column := child.span.start.column + 1
  let topEq := topLevelChar entry '='
  if childKind == .inputDecl && topEq.any (fun eq => (strchr entry '$').all (eq < ·)) then
    syntaxError "Defaulted input parameters must use '$name = default'" line column
  else if params || ((childKind == .stateDecl || childKind == .inputDecl || childKind == .outputDecl) && topEq.isSome) then
    p.assignNameExpr child entry (params || childKind == .inputDecl) offset line column
  else
    let (name, type) ← splitDeclHead entry false line column
    if childKind == .stateDecl && !type.any ("buffer<".toList.isPrefixOf ·) then
      syntaxError "State declarations require an initializer" 0 0
    else return { child with name := some name, value := type }

/-- `cxpr_doc_ast_parse_comma_or_line_decls`. -/
def parseCommaOrLineDecls (childKind : Kind) (body : Text) (bodyOffset : Nat) (params : Bool) :
    Parsed (List (Node D)) :=
  ((withOffsets bodyOffset (splitDecls body)).filter fun (_, piece) => !(trim piece).isEmpty).mapM
    fun (offset, piece) => p.parseDecl childKind params (trim piece) offset (offset + piece.length)

def blankLine (line : Text) : Bool := line.isEmpty || line.head? == some '#' || "//".toList.isPrefixOf line

/-- The length of a token after `cxpr_doc_ast_trim_in_place`. A semicolon on its own takes the space before it with it. -/
def trimmedLength (token : Text) : Nat :=
  if (token.dropWhile isSpace).rdropWhile isSpace == [';'] then indent token - 1 else indent token + (trim token).length

def appendContinuation (text part : Text) : Text :=
  if text.isEmpty || part.isEmpty then text ++ part else text ++ ' ' :: part

def parseReturn (text trimmed : Text) (offset : Nat) : Parsed (Node D) := do
  let child : Node D := { kind := .returned, span := p.span offset (offset + trimmed.length), text := some text }
  let expr := trim text
  if expr.head? == some '{' then
    if (strrchr expr '}').isSome then return child else .error none
  else if hasTopLevelComma expr then return child
  else return { child with
    expression := some (← p.parseExpr expr child.span.start.line (child.span.start.column + 1)) }

def parseBodyLines : Nat → List Text → Parsed (List (Node D))
  | _, [] => return []
  | offset, token :: tokens => do
    let trimmed := trim token
    let next := offset + trimmedLength token + 1
    if blankLine trimmed then parseBodyLines next tokens
    else
      match keyword trimmed "return".toList <|> keyword trimmed "out".toList with
      | some [] =>
        -- the rest of the body belongs to the return
        let text := ((tokens.map trim).filter (! blankLine ·)).foldl appendContinuation []
        return [← p.parseReturn text trimmed offset]
      | some rest => return (← p.parseReturn rest trimmed offset) :: (← parseBodyLines next tokens)
      | none =>
        if (strchr trimmed '=').isSome then
          let child : Node D := { kind := .localBinding, span := p.span offset (offset + trimmed.length) }
          let child ← p.assignNameExpr child trimmed false offset child.span.start.line (child.span.start.column + 1)
          return child :: (← parseBodyLines next tokens)
        else
          let at_ := pos p.source offset
          syntaxError "Expected local assignment or return" at_.line (at_.column + 1)

def parseFunctionBody (body : Text) (bodyOffset : Nat) : Parsed (Node D) := do
  let children ← p.parseBodyLines bodyOffset (strtok body '\n')
  return { kind := .functionBody, span := p.span bodyOffset (bodyOffset + body.length), children }

/-! ### Statements -/

structure Place where
  start : Nat
  span : SourceSpan

def Place.line (at_ : Place) : Nat := at_.span.start.line

def Place.column (at_ : Place) : Nat := at_.span.start.column + 1

/-- The `syntax` exit of `cxpr_doc_ast_parse_statement`. -/
def Place.failed {α : Type} (at_ : Place) : Parsed α := syntaxError "Failed to parse document syntax" at_.line at_.column

/-- What stands before the first opening brace, and the places of this brace and of the last closing one, if it is not
    before it. -/
def braces (text : Text) : Option (Nat × Nat) :=
  match strchr text '{', strrchr text '}' with
  | some opening, some closing => if closing < opening then none else some (opening, closing)
  | _, _ => none

def between (text : Text) (opening closing : Nat) : Text := (text.take closing).drop (opening + 1)

def parseModel (hostFields : Text → Nat → Parsed (List (Node D))) (at_ : Place) (rest : Text) (restOffset : Nat) :
    Parsed (Node D) := do
  let node : Node D := { kind := .modelDecl, span := at_.span }
  match strchr rest '{' with
  | none => return { node with name := some (trim rest) }
  | some opening =>
    match braces rest with
    | none => at_.failed
    | some (_, closing) =>
      let text := trim (between rest opening closing)
      let start := at_.start + (restOffset + opening)
      let fields ← hostFields text (start + 1)
      let metadata : Node D :=
        { metadataNode text (p.span start (at_.start + (restOffset + closing) + 1)) with children := fields }
      return { node with name := some (trim (rest.take opening)), children := [metadata] }

def parseInput (at_ : Place) (rest : Text) (restOffset : Nat) : Parsed (Node D) := do
  let node : Node D := { kind := .inputBlock, span := at_.span }
  if (strchr rest '{').isSome && (topLevelChar rest '=').isNone then
    match braces rest with
    | none => at_.failed
    | some (opening, closing) =>
      let root := trim (rest.take opening)
      let children ← p.parseCommaOrLineDecls .inputDecl (between rest opening closing)
        (at_.start + (restOffset + opening + 1)) false
      return { node with name := if root.isEmpty then none else some root, children }
  else if (topLevelChar rest '=').isSome || (topLevelChar rest ',').isSome then
    return { node with children := ← p.parseCommaOrLineDecls .inputDecl rest (at_.start + restOffset) false }
  else
    let (name, type) ← splitDeclHead rest false at_.line at_.column
    return { node with kind := .inputDecl, name := some name, value := type }

def parseState (at_ : Place) (rest : Text) (restOffset : Nat) : Parsed (Node D) := do
  if (strchr rest '{').isSome then
    match braces rest with
    | none => at_.failed
    | some (opening, closing) =>
      let children ← p.parseCommaOrLineDecls .stateDecl (between rest opening closing)
        (at_.start + (restOffset + opening + 1)) false
      return { kind := .stateBlock, span := at_.span, children }
  else
    let node : Node D := { kind := .stateDecl, span := at_.span }
    if (topLevelChar rest '=').isSome then
      p.assignNameExpr node rest false (at_.start + restOffset) at_.line at_.column
    else
      let (name, type) ← splitDeclHead rest false at_.line at_.column
      if type.any ("buffer<".toList.isPrefixOf ·) then return { node with name := some name, value := type }
      else syntaxError "State declarations require an initializer" at_.line at_.column

def splitOutputRole (text : Text) : Option (Text × Option Text) :=
  let name := trim text
  match strstr name " as ".toList with
  | none => some (name, none)
  | some i =>
    let role := trim (name.drop (i + 4))
    let name := trim (name.take i)
    if isIdent name && isIdent role && (strstr role " as ".toList).isNone then some (name, some role) else none

def outputMetadataText (role : Option Text) (body : Text) : Text :=
  match role with
  | none => body
  | some role =>
    let quoted := "role = \"".toList ++ role ++ ['"']
    if body.isEmpty then quoted else quoted ++ '\n' :: body

def parseOutput (at_ : Place) (rest : Text) (restOffset : Nat) : Parsed (Node D) := do
  let node : Node D := { kind := .outputDecl, span := at_.span }
  if (strstr rest ":=".toList).isSome then
    p.assignNameUpdate { node with kind := .outputStateUpdate } rest at_.line at_.column
  else if (strchr rest '(').isSome && (strchr rest '=').isNone then
    let expression ← p.parseExpr rest at_.line at_.column
    return { node with kind := .anonymousOutput, text := some rest, expression := some expression }
  else if (strchr rest '{').isSome && rest.head? != some '{' then
    match braces rest with
    | none => at_.failed
    | some (opening, closing) =>
      match splitOutputRole (rest.take opening) with
      | none => at_.failed
      | some (name, role) =>
        let body := trim (between rest opening closing)
        if role.isSome && (strstr body "role".toList).isSome then at_.failed
        else
          let span := p.span (at_.start + (restOffset + opening)) (at_.start + (restOffset + closing) + 1)
          return { node with name := some name, children := [metadataNode (outputMetadataText role body) span] }
  else if rest.head? == some '{' then
    match braces rest with
    | none => at_.failed
    | some (opening, closing) =>
      let children ← p.parseCommaOrLineDecls .outputDecl (between rest opening closing)
        (at_.start + (restOffset + opening + 1)) false
      return { node with kind := .outputBlock, children }
  else if (strchr rest '=').isSome then
    p.assignNameExpr node rest false (at_.start + restOffset) at_.line at_.column
  else
    match splitOutputRole rest with
    | none => at_.failed
    | some (name, none) => return { node with name := some name }
    | some (name, some role) =>
      return { node with name := some name, children := [metadataNode (outputMetadataText (some role) []) at_.span] }

def parseFunction (at_ : Place) (statement : Text) : Parsed (Node D) := do
  let node : Node D := { kind := .functionDecl, span := at_.span }
  match strchr statement '{', strchr statement '=' with
  | some opening, _ =>
    match braces statement with
    | none => at_.failed
    | some (_, closing) =>
      let body ← p.parseFunctionBody (between statement opening closing) (at_.start + (opening + 1))
      return { node with name := some (trim ((statement.take opening).drop 2)), children := [body] }
  | none, some eq =>
    let rhs := trim (statement.drop (eq + 1))
    let node := { node with name := some (trim ((statement.take eq).drop 2)), text := some rhs }
    if rhs.head? == some '{' || hasTopLevelComma rhs then return node
    else return { node with expression := some (← p.parseExpr rhs at_.line at_.column) }
  | none, none => at_.failed

def parseParam (at_ : Place) (statement : Text) : Parsed (Node D) := do
  let after := (statement.drop 1).dropWhile isSpace
  if after.head? == some '{' then
    match strrchr after '}' with
    | none => at_.failed
    | some closing =>
      let children ← p.parseCommaOrLineDecls .paramDecl (between after 0 closing)
        (at_.start + (statement.length - after.length + 1)) true
      return { kind := .paramBlock, span := at_.span, children }
  else p.assignNameExpr { kind := .paramDecl, span := at_.span } statement true at_.start at_.line at_.column

def parseAssignment (at_ : Place) (statement : Text) : Parsed (Node D) :=
  match strstr statement ":=".toList with
  | some op =>
    match findTopLevelKeyword (statement.drop (op + 2)) "initial".toList with
    | some initial =>
      p.assignInitialStateUpdate { kind := .initialStateUpdate, span := at_.span } statement op initial at_.line at_.column
    | none => p.assignNameUpdate { kind := .stateUpdate, span := at_.span } statement at_.line at_.column
  | none =>
    if (strchr statement '=').isSome then
      p.assignNameExpr { kind := .binding, span := at_.span } statement false at_.start at_.line at_.column
    else at_.failed

def parseKeyword (hostFields : Text → Nat → Parsed (List (Node D))) (at_ : Place) (statement : Text) :
    Parsed (Node D) :=
  let restOffset (rest : Text) := statement.length - rest.length
  match keyword statement "model".toList with
  | some rest => p.parseModel hostFields at_ rest (restOffset rest)
  | none =>
  match keyword statement "use".toList with
  | some rest => .ok { kind := .use, span := at_.span, text := some rest }
  | none =>
  match keyword statement "in".toList with
  | some rest => p.parseInput at_ rest (restOffset rest)
  | none =>
  match keyword statement "state".toList with
  | some rest => p.parseState at_ rest (restOffset rest)
  | none =>
  match keyword statement "out".toList with
  | some rest => p.parseOutput at_ rest (restOffset rest)
  | none =>
  match keyword statement "fn".toList with
  | some _ => p.parseFunction at_ statement
  | none =>
  if statement.head? == some '$' then p.parseParam at_ statement else p.parseAssignment at_ statement

def parseStatement (hostFields : Text → Nat → Parsed (List (Node D))) (text : Text) (start stop : Nat) :
    Parsed (List (Node D)) := do
  let statement := trim (trim text)
  let at_ : Place := ⟨start, p.span start stop⟩
  if blankLine statement then return []
  else
    let node ← p.parseKeyword hostFields at_ statement
    if p.modelExtension then return [node]
    else syntaxError "Model syntax requires CXPR_DOC_EXTENSION_MODEL" at_.line at_.column

/-- `cxpr_doc_ast_parse_host_start`. -/
def parseHostStart (line : Text) : Option (Text × Text × Nat) := do
  let first ← line.head?
  if !(first.isAlpha || first == '_') then none
  else
    let opening ← strchr line '{'
    if (strchr line '=').any (· < opening) then none
    else
      let kind := line.takeWhile fun c => c.isAlphanum || c == '_'
      if reservedHostKind kind then none
      else
        let rest := (line.drop kind.length).dropWhile isSpace
        match rest with
        | '{' :: _ => return (kind, [], opening)
        | c :: _ =>
          if !(c.isAlphanum || c == '_') then none
          else
            let name := rest.takeWhile fun c => c.isAlphanum || c == '_' || c == '-'
            if ((rest.drop name.length).dropWhile isSpace).head? == some '{' then return (kind, name, opening) else none
        | [] => none

/-- One field of `cxpr_doc_ast_parse_host_fields` that is no block. -/
def parseHostField (field : Text) (offset stop : Nat) : Parsed (Node D) :=
  let child : Node D := { kind := .hostField, span := p.span offset stop }
  match strchr field '=' with
  | none =>
    if (strchr field ':').isSome then syntaxError "Host block body must use cxpr syntax" 0 0
    else .ok { child with name := some (trim field), text := some "true".toList }
  | some eq =>
    if hostValueContainsAssignment (field.drop (eq + 1)) then
      syntaxError "Host block field value contains another assignment; use comma or newline" 0 0
    else .ok { child with name := some (trim (field.take eq)), text := some (trim (field.drop (eq + 1))) }

/-- The last lines of `cxpr_doc_ast_parse_host_statement`: a failure is not left without an error. -/
def orOutOfMemory {α : Type} : Parsed α → Parsed α
  | .error none => .error (some ⟨⟨.outOfMemory, "Out of memory"⟩, 0, 0⟩)
  | r => r

mutual

/-- `cxpr_doc_ast_parse_host_fields`. -/
def parseHostFields : Nat → Text → Nat → Parsed (List (Node D))
  | 0, _, _ => syntaxError "Blocks nested too deeply" 0 0
  | fuel + 1, body, bodyOffset =>
    List.flatten <$> (((withOffsets bodyOffset (splitFields body)).filter fun (_, piece) => !(trim piece).isEmpty).mapM
      fun (offset, piece) =>
        if (strchr (trim piece) '{').isSome then parseHostStatement fuel piece offset (offset + piece.length)
        else ([·]) <$> p.parseHostField (trim piece) offset (offset + piece.length))

def parseHostStatement (fuel : Nat) (text : Text) (start stop : Nat) : Parsed (List (Node D)) :=
  let statement := trim (trim text)
  match parseHostStart statement with
  | none => p.parseStatement (parseHostFields fuel) text start stop
  | some (kind, name, opening) => do
    let body := statement.drop (opening + 1)
    let body := match strrchr body '}' with
      | some closing => body.take closing
      | none => body
    let children ← orOutOfMemory (parseHostFields fuel body (start + (opening + 1)))
    return [{ kind := .hostBlock, span := p.span start stop, name := some kind, value := some name, text := some body,
              children }]

end

def lines (source : Text) : List (Nat × Text) := withOffsets 0 (source.splitOn '\n')

/-- The state of the loop of `cxpr_doc_ast_parse`: where the statement starts that is being read, the braces open, and
    the nodes so far. -/
structure Cut (D : Type) where
  current : Option Nat := none
  depth : Int := 0
  nodes : List (Node D) := []

def flush (fuel : Nat) (cut : Cut D) (stop : Nat) : Parsed (Cut D) :=
  match cut.current with
  | none => .ok cut
  | some start => do
    let nodes ← p.parseHostStatement fuel ((p.source.drop start).take (stop - start)) start stop
    return { cut with current := none, nodes := cut.nodes ++ nodes }

/-- One line of the loop of `cxpr_doc_ast_parse`. A statement ends at a blank line or at one that is not indented, when
    no brace is open. -/
def readLine (fuel : Nat) (cut : Cut D) (line : Nat × Text) : Parsed (Cut D) :=
  let (start, text) := line
  let trimmed := trim text
  if blankLine trimmed then
    if cut.depth ≤ 0 then p.flush fuel cut (start - 1) else .ok cut
  else do
    let indented := text.head?.any isSpace
    let cut ← if cut.depth ≤ 0 && !indented then p.flush fuel cut (start - 1) else .ok cut
    return { cut with current := cut.current <|> some start, depth := cut.depth + braceDelta trimmed }

/-- The statement loop of `cxpr_doc_ast_parse`. -/
def parseDocument : Parsed (Node D) := do
  let fuel := p.source.length + 1
  let cut ← (lines p.source).foldlM (p.readLine fuel) {}
  let cut ← p.flush fuel cut p.source.length
  return { kind := .file, span := p.span 0 p.source.length, children := cut.nodes }

end Parser

def docAstParse {D : Type} (exprAstParse : Text → Except ParseError (Ast D)) (modelExtension : Bool) (source : Text) :
    Parsed (Node D) :=
  Parser.parseDocument { source := stripComments source, modelExtension, exprAstParse }

end Cxpr.Document
