import Cxpr.Parser.Parse

/-! The grammar of expressions, with the tree that each production builds. Loops are left recursive where the operators
    associate to the left. A `|>` behind a conditional belongs to its last branch, so the operand in front of a `|>`
    is never an open conditional. -/

namespace Cxpr.Parser
variable {D : Type}

inductive Sym where
  | pipe | stages | ternary | or | and | not | equality | relational | chain | set | arithmetic | term | unary | power
  | primary | atom | argList | args | arg | elements | fields | field

abbrev Sym.Result (D : Type) : Sym → Type
  | .chain => Chain D
  | .argList | .args => List (Option String × Ast D)
  | .arg => Option String × Ast D
  | .elements => List (Ast D)
  | .fields => List (String × Ast D)
  | .field => String × Ast D
  | _ => Ast D

def segmentTokens : List String → List (Token D)
  | [] => []
  | name :: names => .dot :: .identifier name :: segmentTokens names

/-- What may stand behind `in`: a list in brackets, or any arithmetic expression that begins with one. -/
inductive SetForm where
  | literal | arithmetic
deriving DecidableEq

def StartsSet : List (Token D) → Prop
  | .lbracket :: .rbracket :: _ => False
  | .lbracket :: _ => True
  | _ => False

inductive Derives (form : SetForm) : (s : Sym) → List (Token D) → s.Result D → Prop
  -- pipe → ternary ∣ stages
  | pipe {t a} (h : Derives form .ternary t a) : Derives form .pipe t a
  | piped {t a} (h : Derives form .stages t a) : Derives form .pipe t a
  -- stages → or ∣ stages |> or
  | head {t a} (h : Derives form .or t a) : Derives form .stages t a
  | stage {t a t' s b} (h : Derives form .stages t a) (hs : Derives form .or t' s) (hcall : pipeInjectArgument s a = .ok b) :
      Derives form .stages (t ++ .pipe :: t') b
  -- ternary → or ∣ or ? pipe : pipe
  | condition {t a} (h : Derives form .or t a) : Derives form .ternary t a
  | ternary {t c t' a t'' b} (hc : Derives form .or t c) (ha : Derives form .pipe t' a) (hb : Derives form .pipe t'' b) :
      Derives form .ternary (t ++ .question :: (t' ++ .colon :: t'')) (.ternary c a b)
  -- or → and ∣ or or and
  | disjunct {t a} (h : Derives form .and t a) : Derives form .or t a
  | or {t a t' b} (h : Derives form .or t a) (h' : Derives form .and t' b) : Derives form .or (t ++ .op .or :: t') (.binary .or a b)
  -- and → not ∣ and and not
  | conjunct {t a} (h : Derives form .not t a) : Derives form .and t a
  | and {t a t' b} (h : Derives form .and t a) (h' : Derives form .not t' b) :
      Derives form .and (t ++ .op .and :: t') (.binary .and a b)
  -- not → not not ∣ equality
  | not {t a} (h : Derives form .not t a) : Derives form .not (.not :: t) (.unary .not a)
  | plain {t a} (h : Derives form .equality t a) : Derives form .not t a
  -- equality → relational ∣ relational (== ∣ !=) relational
  | single {t a} (h : Derives form .relational t a) : Derives form .equality t a
  | equality {t a t' b op} (hop : isEqualityOp op = true) (h : Derives form .relational t a) (h' : Derives form .relational t' b) :
      Derives form .equality (t ++ .op op :: t') (.binary op a b)
  -- relational → arithmetic ∣ chain ∣ arithmetic [not] in set
  | operand {t a} (h : Derives form .arithmetic t a) : Derives form .relational t a
  | chained {t c} (h : Derives form .chain t c) : Derives form .relational t c.left
  | member {t a t' b} (h : Derives form .arithmetic t a) (h' : Derives form .set t' b) :
      Derives form .relational (t ++ .kwIn :: t') (membership false a b)
  | notMember {t a t' b} (h : Derives form .arithmetic t a) (h' : Derives form .set t' b) :
      Derives form .relational (t ++ .not :: .kwIn :: t') (membership true a b)
  -- set → [ elements ∣ arithmetic
  | literal {t es} (hform : form = .literal) (h : Derives form .elements t es) :
      Derives form .set (.lbracket :: t) (.array es)
  | setOperand {t a} (hform : form = .arithmetic) (h : Derives form .arithmetic t a) (hset : StartsSet t) :
      Derives form .set t a
  -- chain → arithmetic (< ∣ <= ∣ > ∣ >=) arithmetic ∣ chain (< ∣ <= ∣ > ∣ >=) arithmetic
  | compare {t a t' b op} (hop : isRelational op = true) (h : Derives form .arithmetic t a) (h' : Derives form .arithmetic t' b) :
      Derives form .chain (t ++ .op op :: t') (.start op a b)
  | compareNext {t c t' b op} (hop : isRelational op = true) (h : Derives form .chain t c) (h' : Derives form .arithmetic t' b) :
      Derives form .chain (t ++ .op op :: t') (c.next op b)
  -- arithmetic → term ∣ arithmetic (+ ∣ -) term
  | summand {t a} (h : Derives form .term t a) : Derives form .arithmetic t a
  | arithmetic {t a t' b op} (hop : isArithmeticOp op = true) (h : Derives form .arithmetic t a) (h' : Derives form .term t' b) :
      Derives form .arithmetic (t ++ .op op :: t') (.binary op a b)
  -- term → unary ∣ term (* ∣ / ∣ %) unary
  | factor {t a} (h : Derives form .unary t a) : Derives form .term t a
  | term {t a t' b op} (hop : isTermOp op = true) (h : Derives form .term t a) (h' : Derives form .unary t' b) :
      Derives form .term (t ++ .op op :: t') (.binary op a b)
  -- unary → - unary ∣ + unary ∣ power
  | minus {t a} (h : Derives form .unary t a) : Derives form .unary (.op .minus :: t) (.unary .minus a)
  | plus {t a} (h : Derives form .unary t a) : Derives form .unary (.op .plus :: t) a
  | unsigned {t a} (h : Derives form .power t a) : Derives form .unary t a
  -- power → primary ∣ primary ^ unary
  | base {t a} (h : Derives form .primary t a) : Derives form .power t a
  | power {t a t' b} (h : Derives form .primary t a) (h' : Derives form .unary t' b) :
      Derives form .power (t ++ .op .power :: t') (.binary .power a b)
  -- primary → atom ∣ primary [ pipe ]
  | atom {t a} (h : Derives form .atom t a) : Derives form .primary t a
  | index {t a t' b} (h : Derives form .primary t a) (h' : Derives form .pipe t' b) :
      Derives form .primary (t ++ .lbracket :: (t' ++ [.rbracket])) (.index a b)
  -- atoms
  | number (v : D) : Derives form .atom [.number v] (.number v)
  | int64 (v : Int64) : Derives form .atom [.int64 v] (.int64 v)
  | bool (v : Bool) : Derives form .atom [.bool v] (.bool v)
  | string (v : String) : Derives form .atom [.string v] (.string v)
  | param (name : String) (segments : List String) :
      Derives form .atom (.param name :: segmentTokens segments) (.param (Ast.fullKey (name :: segments)))
  | path (name : String) (segments : List String) :
      Derives form .atom (.identifier name :: segmentTokens segments) (pathNode name segments)
  | call (name : String) (segments : List String) {t args} (h : Derives form .argList t args) :
      Derives form .atom (.identifier name :: (segmentTokens segments ++ .lparen :: t))
        (callNode segments.isEmpty (Ast.fullKey (name :: segments)) args)
  | producer (name : String) (segments : List String) (field : String) {t args} (h : Derives form .argList t args) :
      Derives form .atom (.identifier name :: (segmentTokens segments ++ .lparen :: (t ++ [.dot, .identifier field])))
        (.producerAccess (Ast.fullKey (name :: segments)) (args.map (·.2)) (args.map (·.1)) field)
  | group {t a} (h : Derives form .pipe t a) : Derives form .atom (.lparen :: (t ++ [.rparen])) a
  | groupField (field : String) {t a} (h : Derives form .pipe t a) :
      Derives form .atom (.lparen :: (t ++ [.rparen, .dot, .identifier field])) (.fieldOf a field)
  | emptyArray : Derives form .atom [.lbracket, .rbracket] (.array [])
  | array {t es} (h : Derives form .elements t es) : Derives form .atom (.lbracket :: t) (.array es)
  | emptyRecord : Derives form .atom [.lbrace, .rbrace] (.record [] [])
  | record {t fs} (h : Derives form .fields t fs) :
      Derives form .atom (.lbrace :: t) (.record (fs.map (·.1)) (fs.map (·.2)))
  -- argList → ) ∣ args, args → arg ) ∣ arg , args
  | noArgs : Derives form .argList [.rparen] []
  | someArgs {t xs} (h : Derives form .args t xs) : Derives form .argList t xs
  | lastArg {t x} (h : Derives form .arg t x) : Derives form .args (t ++ [.rparen]) [x]
  | moreArgs {t x t' xs} (h : Derives form .arg t x) (h' : Derives form .args t' xs) : Derives form .args (t ++ .comma :: t') (x :: xs)
  | positional {t a} (h : Derives form .pipe t a) : Derives form .arg t (none, a)
  | named (name : String) {t a} (h : Derives form .pipe t a) :
      Derives form .arg (.identifier name :: .assign :: t) (some name, a)
  -- elements → pipe ] ∣ pipe , elements
  | lastElement {t a} (h : Derives form .pipe t a) : Derives form .elements (t ++ [.rbracket]) [a]
  | moreElements {t a t' as} (h : Derives form .pipe t a) (h' : Derives form .elements t' as) :
      Derives form .elements (t ++ .comma :: t') (a :: as)
  -- fields → field } ∣ field , fields
  | lastField {t x} (h : Derives form .field t x) : Derives form .fields (t ++ [.rbrace]) [x]
  | moreFields {t x t' xs} (h : Derives form .field t x) (h' : Derives form .fields t' xs) : Derives form .fields (t ++ .comma :: t') (x :: xs)
  | assigned (name : String) {t a} (h : Derives form .pipe t a) : Derives form .field (.identifier name :: .assign :: t) (name, a)
  | labelled (name : String) {t a} (h : Derives form .pipe t a) : Derives form .field (.identifier name :: .colon :: t) (name, a)
  | punned (name : String) : Derives form .field [.identifier name] (name, .identifier name)

end Cxpr.Parser
