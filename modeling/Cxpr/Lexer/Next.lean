import Cxpr.Document.Text
import Cxpr.Lib.Cursor

/-! The lexer of expressions (`src/lexer/lexer.c`). A text is the bytes of the source, its terminator the end of the list.
    The locale is the C locale. -/

namespace Cxpr

/-- `cxpr_lexer`. The characters that are left stand for the pointer into the source. -/
abbrev Lexer := Cursor

namespace Lexer
open Document (Text isSpace)
variable {D : Type}

inductive TokenType where
  | number | identifier | param | true | false | string
  | plus | minus | star | slash | percent | power
  | assign | eq | neq | lt | gt | lte | gte
  | and | or | not | kwIn
  | lparen | rparen | lbracket | rbracket | lbrace | rbrace | comma | dot | pipe | question | colon
  | eof | error
  deriving DecidableEq, Repr

/-- `cxpr_token`; `text` is what `start` and `length` delimit, and the message of an error. -/
structure Token (D : Type) where
  type : TokenType
  text : Text
  numberValue : D
  int64Value : Int64
  isInt64 : Bool
  position : Nat
  line : Nat
  column : Nat

/-- What the C library and the compiler provide: `strtod` without an end pointer, `0.0` and `NAN`. -/
structure Numerals (D : Type) where
  strtod : Text → D
  zero : D
  nan : D

def isIdentStart (c : Char) : Bool := c.isAlpha || c == '_'

def isIdentChar (c : Char) : Bool := c.isAlphanum || c == '_'

def skipBlock : Text → Lexer → Lexer
  | [], l => l
  | [_], l => l.advance
  | c :: d :: rest, l => if c == '*' && d == '/' then l.advance.advance else skipBlock (d :: rest) l.advance

/-- The loop of `cxpr_lexer_skip_whitespace`, for at most `fuel` rounds. -/
def skipLoop : Nat → Lexer → Lexer
  | 0, l => l
  | fuel + 1, l =>
    let l := l.advanceWhile isSpace
    match l.current with
    | '#' :: _ => skipLoop fuel (l.advanceWhile (· != '\n'))
    | '/' :: '/' :: _ => skipLoop fuel (l.advanceWhile (· != '\n'))
    | '/' :: '*' :: rest => skipLoop fuel (skipBlock rest l.advance.advance)
    | _ => l

/-- `cxpr_lexer_skip_whitespace`. Every round but the last passes a character. -/
def skipWhitespace (l : Lexer) : Lexer := skipLoop (l.current.length + 1) l

variable (lib : Numerals D)

/-- `cxpr_make_token`; the place is that of the lexer where the token starts. -/
def makeToken (type : TokenType) (text : Text) (start : Lexer) : Token D :=
  ⟨type, text, lib.zero, 0, false, start.position, start.line, start.column⟩

def makeErrorToken (message : String) (l : Lexer) : Token D := makeToken lib .error message.toList l

def keywords : List (String × TokenType) :=
  [("and", .and), ("AND", .and), ("or", .or), ("OR", .or), ("not", .not), ("NOT", .not), ("in", .kwIn), ("IN", .kwIn),
    ("true", .true), ("TRUE", .true), ("false", .false), ("FALSE", .false),
    ("eq", .eq), ("EQ", .eq), ("ne", .neq), ("NE", .neq), ("neq", .neq), ("NEQ", .neq), ("lt", .lt), ("LT", .lt),
    ("gt", .gt), ("GT", .gt), ("le", .lte), ("LE", .lte), ("lte", .lte), ("LTE", .lte), ("ge", .gte), ("GE", .gte),
    ("gte", .gte), ("GTE", .gte)]

def checkKeyword (text : Text) : TokenType :=
  match keywords.find? fun entry => entry.1.toList == text with
  | some entry => entry.2
  | none => .identifier

/-- The size of the buffer in `cxpr_lexer_number`. -/
def bufferSize : Nat := 64

def scanFraction (l : Lexer) : Option Lexer :=
  match l.current with
  | '.' :: rest => if rest.head?.any Char.isDigit then some (l.advance.advanceWhile Char.isDigit) else none
  | _ => none

def scanSign (l : Lexer) : Lexer := if l.sees fun c => c == '+' || c == '-' then l.advance else l

/-- The scientific notation behind `l`, if there is one: where its digits are to start. -/
def scanExponent (l : Lexer) : Option Lexer :=
  if l.sees fun c => c == 'e' || c == 'E' then some (scanSign l.advance) else none

/-- The scan of `cxpr_lexer_number`: the end of the literal and `integer_syntax`, or where the digits of an exponent
    are missing. -/
def scanNumber (l : Lexer) : Except Lexer (Lexer × Bool) :=
  let whole := l.advanceWhile Char.isDigit
  let fraction := scanFraction whole
  match scanExponent (fraction.getD whole) with
  | none => .ok (fraction.getD whole, fraction.isNone)
  | some digits => if digits.sees Char.isDigit then .ok (digits.advanceWhile Char.isDigit, false) else .error digits

def int64Suffix : Text → Bool
  | 'i' :: '6' :: '4' :: rest => !rest.head?.any isIdentChar
  | _ => false

def digitsValue (digits : Text) : Nat := digits.foldl (fun n c => 10 * n + (c.toNat - '0'.toNat)) 0

def strtoimax (digits : Text) : Option Int64 :=
  if digitsValue digits ≤ Int64.maxValue.toInt.toNat then some (Int64.ofNat (digitsValue digits)) else none

/-- `cxpr_lexer_number`. -/
def lexNumber (l : Lexer) : Token D × Lexer :=
  match scanNumber l with
  | .error l' => (makeErrorToken lib "Invalid scientific notation" l', l')
  | .ok (l', integerSyntax) =>
    let text := l.between l'
    if integerSyntax && int64Suffix l'.current then
      let l'' := l'.advance.advance.advance
      if bufferSize ≤ text.length then (makeErrorToken lib "int64 literal is too long" l'', l'')
      else
        match strtoimax text with
        | none => (makeErrorToken lib "int64 literal is out of range" l'', l'')
        | some value => ({ makeToken lib .number (l.between l'') l with int64Value := value, isInt64 := true }, l'')
    else
      -- what does not fit into the buffer is cut off
      ({ makeToken lib .number text l with numberValue := lib.strtod (text.take (bufferSize - 1)) }, l')

/-- `cxpr_lexer_identifier`. -/
def lexIdentifier (l : Lexer) : Token D × Lexer :=
  let l' := l.advanceWhile isIdentChar
  let text := l.between l'
  if ["null", "NULL", "Null"].any (·.toList == text) then ({ makeToken lib .number text l with numberValue := lib.nan }, l')
  else (makeToken lib (checkKeyword text) text l, l')

def scanSegments : Nat → Lexer → Except Lexer Lexer
  | 0, l => .ok l
  | fuel + 1, l =>
    match l.current with
    | '.' :: rest =>
      if rest.head?.any isIdentStart then scanSegments fuel (l.advance.advanceWhile isIdentChar) else .error l
    | _ => .ok l

/-- `cxpr_lexer_variable`. -/
def lexVariable (l : Lexer) : Token D × Lexer :=
  let name := l.advance
  if name.sees isIdentStart then
    let first := name.advanceWhile isIdentChar
    match scanSegments first.current.length first with
    | .error l' => (makeErrorToken lib "Expected identifier after '.' in variable" l', l')
    | .ok l' => (makeToken lib .param (name.between l') l, l')
  else (makeErrorToken lib "Expected identifier after '$'" name, name)

/-- The loop of `cxpr_lexer_string`: a backslash takes the next character with it. -/
def skipString (quote : Char) : Text → Lexer → Lexer
  | [], l => l
  | [c], l => if c == quote then l else l.advance
  | c :: d :: rest, l =>
    if c == quote then l
    else if c == '\\' then skipString quote rest l.advance.advance
    else skipString quote (d :: rest) l.advance

/-- `cxpr_lexer_string`, behind its opening quote. -/
def lexString (quote : Char) (l : Lexer) : Token D × Lexer :=
  let value := l.advance
  let l' := skipString quote value.current value
  if l'.sees (· == quote) then (makeToken lib .string (value.between l') l, l'.advance)
  else (makeErrorToken lib "Unterminated string literal" l', l')

/-- The switch of `cxpr_lexer_next` on a character and the one behind it: the token type, and whether both are in it. -/
def operator : Char → Option Char → Option (TokenType × Bool)
  | '+', _ => some (.plus, false)
  | '-', _ => some (.minus, false)
  | '*', some '*' => some (.power, true)
  | '*', _ => some (.star, false)
  | '/', _ => some (.slash, false)
  | '%', _ => some (.percent, false)
  | '^', _ => some (.power, false)
  | '(', _ => some (.lparen, false)
  | ')', _ => some (.rparen, false)
  | '[', _ => some (.lbracket, false)
  | ']', _ => some (.rbracket, false)
  | '{', _ => some (.lbrace, false)
  | '}', _ => some (.rbrace, false)
  | ',', _ => some (.comma, false)
  | '.', _ => some (.dot, false)
  | ':', _ => some (.colon, false)
  | '?', _ => some (.question, false)
  | '!', some '=' => some (.neq, true)
  | '!', _ => some (.not, false)
  | '=', some '=' => some (.eq, true)
  | '=', _ => some (.assign, false)
  | '<', some '=' => some (.lte, true)
  | '<', _ => some (.lt, false)
  | '>', some '=' => some (.gte, true)
  | '>', _ => some (.gt, false)
  | '&', some '&' => some (.and, true)
  | '|', some '|' => some (.or, true)
  | '|', some '>' => some (.pipe, true)
  | _, _ => none

/-- The part of `cxpr_lexer_next` behind the literals and names. -/
def lexOperator (c : Char) (l : Lexer) : Token D × Lexer :=
  let behind := l.advance
  match operator c behind.current.head? with
  | none => (makeErrorToken lib "Unexpected character" behind, behind)
  | some (type, both) =>
    let l' := if both then behind.advance else behind
    (makeToken lib type (l.between l') l, l')

def next (l : Lexer) : Token D × Lexer :=
  let l := skipWhitespace l
  match l.current with
  | [] => (makeToken lib .eof [] l, l)
  | c :: rest =>
    if c.isDigit || (c == '.' && rest.head?.any Char.isDigit) then lexNumber lib l
    else if isIdentStart c then lexIdentifier lib l
    else if c == '$' then lexVariable lib l
    else if c == '"' || c == '\'' then lexString lib c l
    else lexOperator lib c l

end Lexer
end Cxpr
