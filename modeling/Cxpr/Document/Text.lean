import Mathlib.Data.List.DropRight
import Cxpr.Value
import Cxpr.Lib.Scan

/-! The texts of documents and the scanners of the document parser (`src/ast/document/parser.c`). Characters are the bytes
    of the source; the terminator of a string is the end of its list. -/

namespace Cxpr.Document

abbrev Text := List Char

/-- `isspace` in the C locale. -/
def isSpace (c : Char) : Bool := c == ' ' || c == '\t' || c == '\n' || c.toNat == 11 || c.toNat == 12 || c == '\r'

def strchr (s : Text) (c : Char) : Option Nat := s.findIdx? (· == c)

def strrchr (s : Text) (c : Char) : Option Nat := (s.reverse.findIdx? (· == c)).map (s.length - 1 - ·)

def strstr (s pattern : Text) : Option Nat :=
  if pattern.isPrefixOf s then some 0
  else
    match s with
    | [] => none
    | _ :: rest => (strstr rest pattern).map (· + 1)

/-- The tokens of `cxpr_strtok_r` for one delimiter: pieces that are empty are not there. -/
def strtok (s : Text) (delimiter : Char) : List Text := (s.splitOn delimiter).filter (! ·.isEmpty)

/-- `cxpr_doc_ast_trim_copy` and `cxpr_doc_ast_trim_in_place`: spaces at both ends, and one semicolon. -/
def trim (s : Text) : Text :=
  let s := (s.dropWhile isSpace).rdropWhile isSpace
  if s.getLast? == some ';' then s.dropLast.rdropWhile isSpace else s

def indent (s : Text) : Nat := (s.takeWhile isSpace).length

/-- Where `cxpr_doc_ast_strip_comments` is. -/
inductive Strip where
  | code
  | line
  | block
  | quote (q : Char)
  deriving DecidableEq

/-- The loop of `cxpr_doc_ast_strip_comments`: comments become spaces, their newlines stay. -/
def stripFrom : Strip → Text → Text
  | _, [] => []
  | .line, c :: rest => if c == '\n' then c :: stripFrom .code rest else ' ' :: stripFrom .line rest
  | .block, '*' :: '/' :: rest => ' ' :: ' ' :: stripFrom .code rest
  | .block, c :: rest => (if c == '\n' then c else ' ') :: stripFrom .block rest
  | .quote q, '\\' :: c :: rest => '\\' :: c :: stripFrom (.quote q) rest
  | .quote q, c :: rest => c :: stripFrom (if c == q then .code else .quote q) rest
  | .code, '/' :: '/' :: rest => ' ' :: ' ' :: stripFrom .line rest
  | .code, '/' :: '*' :: rest => ' ' :: ' ' :: stripFrom .block rest
  | .code, c :: rest =>
    if c == '"' || c == '\'' then c :: stripFrom (.quote c) rest
    else if c == '#' then ' ' :: stripFrom .line rest
    else c :: stripFrom .code rest

def stripComments (source : Text) : Text := stripFrom .code source

def isIdent (s : Text) : Bool :=
  match s with
  | [] => false
  | c :: rest => (c.isAlpha || c == '_') && rest.all fun c => c.isAlphanum || c == '_'

/-- `cxpr_doc_ast_keyword`. -/
def keyword (line word : Text) : Option Text :=
  if word.isPrefixOf line then
    match line.drop word.length with
    | [] => some []
    | c :: rest => if isSpace c then some ((c :: rest).dropWhile isSpace) else none
  else none

def reservedHostKind (kind : Text) : Bool :=
  ["name", "model", "use", "in", "fn", "update", "out", "state", "meta"].any fun word => word.toList == kind

structure Depth where
  paren : Nat := 0
  brace : Nat := 0
  bracket : Nat := 0
  quote : Option Char := none
  escaped : Bool := false
  deriving DecidableEq

namespace Depth

def top (d : Depth) : Bool := d.paren == 0 && d.brace == 0 && d.bracket == 0 && d.quote.isNone

/-- One character; a closing character without its opening one counts for nothing. -/
def advance (d : Depth) (c : Char) : Depth :=
  match d.quote with
  | some q =>
    if d.escaped then { d with escaped := false }
    else if c == '\\' then { d with escaped := true }
    else if c == q then { d with quote := none }
    else d
  | none =>
    if c == '"' || c == '\'' then { d with quote := some c }
    else if c == '(' then { d with paren := d.paren + 1 }
    else if c == ')' then { d with paren := d.paren - 1 }
    else if c == '{' then { d with brace := d.brace + 1 }
    else if c == '}' then { d with brace := d.brace - 1 }
    else if c == '[' then { d with bracket := d.bracket + 1 }
    else if c == ']' then { d with bracket := d.bracket - 1 }
    else d

end Depth

def hasTopLevel (wanted : Char) (s : Text) : Bool :=
  (Scan.find Depth.advance (fun d rest => d.top && rest.head? == some wanted) {} s).isSome

def hasTopLevelComma (s : Text) : Bool := hasTopLevel ',' s

def hostValueContainsAssignment (s : Text) : Bool := hasTopLevel '=' s

/-- `cxpr_doc_ast_find_top_level_keyword`. -/
def findTopLevelKeyword (s word : Text) : Option Nat :=
  Scan.find (fun (d, _) c => (d.advance c, isSpace c))
    (fun (d, spaced) rest => d.top && word.isPrefixOf rest && spaced && ((rest.drop word.length).head?.any isSpace))
    (({} : Depth), true) s

/-- The scan of `cxpr_doc_ast_brace_delta`: the quote, whether the next character is escaped, and the braces so far. -/
structure Braces where
  quote : Option Char := none
  escaped : Bool := false
  delta : Int := 0
  deriving DecidableEq

def Braces.advance (b : Braces) (c : Char) : Braces :=
  match b.quote with
  | some q =>
    if b.escaped then { b with escaped := false }
    else if c == '\\' then { b with escaped := true }
    else if c == q then { b with quote := none }
    else b
  | none =>
    if c == '"' || c == '\'' then { b with quote := some c }
    else if c == '{' then { b with delta := b.delta + 1 }
    else if c == '}' then { b with delta := b.delta - 1 }
    else b

def braceDelta (s : Text) : Int := (s.foldl Braces.advance {}).delta

/-- The nesting of a scanner that takes strings for text and `<` and `>` for brackets. -/
structure Nest where
  angle : Nat := 0
  brace : Nat := 0
  paren : Nat := 0
  bracket : Nat := 0
  deriving DecidableEq

namespace Nest

def closed (n : Nest) : Bool := n.angle == 0 && n.brace == 0 && n.paren == 0 && n.bracket == 0

/-- One character; a closing character without its opening one counts for nothing. -/
def advance (n : Nest) (c : Char) : Nest :=
  if c == '<' then { n with angle := n.angle + 1 }
  else if c == '>' then { n with angle := n.angle - 1 }
  else if c == '{' then { n with brace := n.brace + 1 }
  else if c == '}' then { n with brace := n.brace - 1 }
  else if c == '(' then { n with paren := n.paren + 1 }
  else if c == ')' then { n with paren := n.paren - 1 }
  else if c == '[' then { n with bracket := n.bracket + 1 }
  else if c == ']' then { n with bracket := n.bracket - 1 }
  else n

end Nest

/-- `cxpr_doc_ast_top_level_char`, for a character that is no bracket. -/
def topLevelChar (s : Text) (wanted : Char) : Option Nat :=
  Scan.find Nest.advance (fun n rest => n.closed && rest.head? == some wanted) {} s

/-- The separators of `cxpr_doc_ast_parse_comma_or_line_decls`. -/
def separates (n : Nest) (c : Char) : Bool := (c == ',' || c == '\n') && n.closed

/-- The entries that `cxpr_doc_ast_parse_comma_or_line_decls` cuts a body into, untrimmed. -/
def splitDecls (body : Text) : List Text := Scan.split Nest.advance separates {} body

/-- The fields that `cxpr_doc_ast_parse_host_fields` cuts a body into, untrimmed. -/
def splitFields (body : Text) : List Text :=
  Scan.split Depth.advance (fun d c => (c == ',' || c == '\n') && d.top) {} body

def withOffsets : Nat → List Text → List (Nat × Text)
  | _, [] => []
  | offset, piece :: pieces => (offset, piece) :: withOffsets (offset + piece.length + 1) pieces

def ulongMax : Nat := 2 ^ 64 - 1

/-- The digits at the start of a text as a number, and what is left; `none` when there is no digit. -/
def digitsValue (s : Text) : Option (Nat × Text) :=
  let digits := s.takeWhile Char.isDigit
  if digits.isEmpty then none
  else some (digits.foldl (fun n c => 10 * n + (c.toNat - '0'.toNat)) 0, s.dropWhile Char.isDigit)

/-- `strtoul` in base 10: the value and what is left, `none` when no digit was read. A minus sign negates modulo
    `ULONG_MAX + 1`; a numeral that is too large gives `ULONG_MAX`. -/
def strtoul (s : Text) : Option (Nat × Text) :=
  match s.dropWhile isSpace with
  | '-' :: rest => (digitsValue rest).map fun (n, left) =>
      (if ulongMax < n then ulongMax else (ulongMax + 1 - n) % (ulongMax + 1), left)
  | '+' :: rest => (digitsValue rest).map fun (n, left) => (min n ulongMax, left)
  | rest => (digitsValue rest).map fun (n, left) => (min n ulongMax, left)

/-- `cxpr_doc_ast_type_valid` on an annotation. -/
def typeValid (type : Text) : Bool :=
  if type == "number".toList || type == "bool".toList || type == "int".toList then true
  else if "series<".toList.isPrefixOf type then
    9 ≤ type.length && type.getLast? == some '>' &&
      ("number>".toList.isPrefixOf (type.drop 7) || "bool>".toList.isPrefixOf (type.drop 7) ||
        "int>".toList.isPrefixOf (type.drop 7))
  else if !"buffer<".toList.isPrefixOf type then false
  else
    match strchr (type.drop 7) ',' with
    | none => false
    | some comma =>
      let element := ((type.drop 7).take comma).rdropWhile isSpace
      if type.getLast? != some '>' then false
      else if !(element == "number".toList || element == "bool".toList || element == "int".toList) then false
      else
        let p := ((type.drop 7).drop (comma + 1)).dropWhile isSpace
        if !"samples".toList.isPrefixOf p then false
        else
          match (p.drop 7).dropWhile isSpace with
          | '=' :: p =>
            match strtoul (p.dropWhile isSpace) with
            | none => false
            | some (n, left) => n != 0 && left.dropWhile isSpace == ['>']
          | _ => false

end Cxpr.Document
