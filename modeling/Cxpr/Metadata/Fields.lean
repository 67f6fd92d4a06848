import Cxpr.Metadata.Scan

/-! The fields of metadata (`src/model/accessors.c`): how a field is found in the text of a body, and how its number or list
    of numbers is read. -/

namespace Cxpr.Metadata
open Document

def keyChar (c : Char) : Bool := c.isAlphanum || c == '_'

def gap (c : Char) : Bool := isSpace c || c == ','

def fieldAt (key cursor : Text) : Option (Text × Bool) :=
  if key.isPrefixOf cursor && !(cursor.drop key.length).head?.any keyChar then
    let probe := (cursor.drop key.length).dropWhile isSpace
    if probe.head? == some '=' then some (probe.tail.dropWhile isSpace, false)
    else if probe.head? == some '{' then some (probe.tail.dropWhile isSpace, true)
    else none
  else none

def findFieldValue (limit : Option Nat) (key cursor : Text) : Option (Text × Bool) :=
  let start := cursor.dropWhile gap
  if !inside limit cursor || !inside limit start || start.head? == some '}' then none
  else
    match fieldAt key start with
    | some found => some found
    | none => if inside limit (valueEnd limit start) then findFieldValue limit key (valueEnd limit start).tail else none
termination_by cursor.length
decreasing_by
  rename_i hinside
  have hne : valueEnd limit start ≠ [] := by
    intro hnil
    simp [inside, hnil] at hinside
  have hlen := valueEnd_length limit start
  have hdrop := (List.dropWhile_suffix (l := cursor) gap).length_le
  have hpos := List.length_pos_of_ne_nil hne
  rw [List.length_tail]
  exact Nat.lt_of_lt_of_le (Nat.sub_lt hpos Nat.one_pos) (hlen.trans hdrop)

/-- The loop of `cxpr_model_metadata_field_value` over the segments of a path. -/
def descend : Option Nat → Text → List Text → Option Text
  | _, _, [] => none
  | limit, body, [segment] => if segment.isEmpty then none else (findFieldValue limit segment body).map Prod.fst
  | limit, body, segment :: segments =>
    match findFieldValue limit segment body with
    | some (cursor, true) => descend (some (blockBodyEnd limit cursor).length) cursor segments
    | _ => none

/-- `cxpr_model_metadata_field_value`. What it returns is the rest of the body from the value on. -/
def fieldValue (body key : Text) : Option Text := descend none body (key.splitOn '.')

inductive Fault where
  | overrun
  deriving DecidableEq

/-- `cxpr_metadata_dup_trimmed_value`. -/
def dupTrimmed (text : Text) : Except Fault Text :=
  let s := (text.dropWhile isSpace).rdropWhile isSpace
  let between (q : Char) : Bool := s.head? == some q && s.getLast? == some q
  if between '"' || between '\'' then if s.length = 1 then .error .overrun else .ok s.tail.dropLast else .ok s

section
variable {D : Type} (strtod : Text → Option (D × Text))

def parseDoubleToken (text : Text) : Except Fault (Option D) := do
  let owned ← dupTrimmed text
  return (strtod owned).bind fun (value, rest) => if (rest.dropWhile isSpace).isEmpty then some value else none

def valueText (cursor : Text) : Text := cursor.take (cursor.length - (valueEnd none cursor).length)

def fieldText (body key : Text) : Option Text := (fieldValue body key).map valueText

def fieldNumber (body key : Text) : Except Fault (Option D) :=
  match fieldText body key with
  | none => .ok none
  | some text => parseDoubleToken strtod text

def listItems (text : Text) : List Text :=
  let text := text.dropWhile isSpace
  let text := if text.head? == some '[' then text.tail else text
  ((text.splitOnP fun c => c == ',' || c == ']').map (List.dropWhile isSpace)).filter (! ·.isEmpty)

def readItems : List Text → Except Fault (Option (List D))
  | [] => .ok (some [])
  | item :: items => do
    match ← parseDoubleToken strtod item with
    | none => return none
    | some value => return (← readItems items).map (value :: ·)

def fieldNumberList (body key : Text) : Except Fault (Option (List D)) :=
  match fieldText body key with
  | none => .ok none
  | some text => readItems strtod (listItems text)

end

end Cxpr.Metadata
