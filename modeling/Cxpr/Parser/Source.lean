import Cxpr.Lexer.Next
import Cxpr.Parser.Parse

/-! Expressions from their text: the tokens that the lexer finds are what the parser reads. -/

namespace Cxpr.Parser
open Document (Text)
variable {D : Type}

def Token.ofLexed (t : Lexer.Token D) : Token D :=
  match t.type with
  | .number => if t.isInt64 then .int64 t.int64Value else .number t.numberValue
  | .identifier => .identifier (String.ofList t.text)
  | .param => .param (String.ofList t.text)
  | .true => .bool true
  | .false => .bool false
  | .string => .string (String.ofList t.text)
  | .plus => .op .plus
  | .minus => .op .minus
  | .star => .op .star
  | .slash => .op .slash
  | .percent => .op .percent
  | .power => .op .power
  | .eq => .op .eq
  | .neq => .op .neq
  | .lt => .op .lt
  | .gt => .op .gt
  | .lte => .op .lte
  | .gte => .op .gte
  | .and => .op .and
  | .or => .op .or
  | .not => .not
  | .kwIn => .kwIn
  | .assign => .assign
  | .lparen => .lparen
  | .rparen => .rparen
  | .lbracket => .lbracket
  | .rbracket => .rbracket
  | .lbrace => .lbrace
  | .rbrace => .rbrace
  | .comma => .comma
  | .dot => .dot
  | .pipe => .pipe
  | .question => .question
  | .colon => .colon
  | .eof | .error => .error (String.ofList t.text)

/-- The tokens up to the end of the source. The parser goes no further than an error. -/
def sourceTokens (lib : Lexer.Numerals D) : Nat → Lexer → List (Token D)
  | 0, _ => []
  | fuel + 1, l =>
    let (t, l') := Lexer.next lib l
    if t.type = .eof then []
    else if t.type = .error then [.error (String.ofList t.text)]
    else .ofLexed t :: sourceTokens lib fuel l'

/-- `cxpr_expr_ast_parse` on a text. Every token but the last takes a character. -/
def parseSource (lib : Lexer.Numerals D) (source : String) : Except Error (Ast D) :=
  exprAstParse (sourceTokens lib (source.toList.length + 1) (Cursor.start source.toList))

end Cxpr.Parser
