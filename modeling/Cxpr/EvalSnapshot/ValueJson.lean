import Cxpr.Lib.Json
import Cxpr.Value

/-! How a snapshot writes values (`src/eval/snapshot/json.c`): the text of every value is JSON, and when it determines the
    value. The end of a list is the terminator of a string. -/

namespace Cxpr.EvalSnapshot
open Json (Text IsValue IsMembers IsElements IsString IsChars Blank)
variable {D : Type}

mutual

/-- No `int64` occurs in a value. -/
def NoInt64 : Value D → Prop
  | .array vs => NoInt64All vs
  | .struct fs => NoInt64Fields fs
  | .int64 _ => False
  | .number _ | .bool _ | .string _ | .null | .timestamp _ | .duration _ => True

def NoInt64All : List (Value D) → Prop
  | [] => True
  | v :: vs => NoInt64 v ∧ NoInt64All vs

def NoInt64Fields : List (String × Value D) → Prop
  | [] => True
  | (_, v) :: fs => NoInt64 v ∧ NoInt64Fields fs

end

def hexDigit (n : Nat) : Char := "0123456789abcdef".toList.getD n '0'

/-- One character of `cxpr_snapshot_json_string`. -/
def jsonChar (c : Char) : Text :=
  if c = '"' then "\\\"".toList
  else if c = '\\' then "\\\\".toList
  else if c = '\n' then "\\n".toList
  else if c = '\r' then "\\r".toList
  else if c = '\t' then "\\t".toList
  -- `%04x` of a character below 32
  else if c.toNat < 0x20 then ['\\', 'u', '0', '0', hexDigit (c.toNat / 16), hexDigit (c.toNat % 16)]
  else [c]

def jsonString (text : Text) : Text := '"' :: (text.flatMap jsonChar ++ ['"'])

/-- `cxpr_snapshot_value_type_name`. -/
def valueTypeName : ValueType → String
  | .number => "number"
  | .bool => "bool"
  | .struct => "struct"
  | .string => "string"
  | .null => "null"
  | .timestamp => "timestamp"
  | .duration => "duration"
  | .array => "array"
  | .int64 => "unknown"

variable [Double D]

def numberJson (value : D) : Text :=
  if Double.isnan value then "\"special\": \"nan\"".toList
  else if Double.isinf value then
    "\"special\": \"".toList ++ (if Double.lt value Double.zero then "-inf" else "inf").toList ++ ['"']
  else "\"number\": ".toList ++ (Double.formatG 17 value).toList

def typedJson (type : ValueType) (payload : Text) : Text :=
  "\x7b \"type\": ".toList ++ jsonString (valueTypeName type).toList ++ payload ++ " \x7d".toList

mutual

def valueJson : Value D → Text
  | .number d => typedJson .number (", ".toList ++ numberJson d)
  | .bool b => typedJson .bool (", \"bool\": ".toList ++ (if b then "true" else "false").toList)
  | .string s => typedJson .string (", \"string\": ".toList ++ jsonString s.toList)
  | .null => typedJson .null ", \"is_null\": true".toList
  | .timestamp i => typedJson .timestamp (", \"unix_ns\": ".toList ++ i.toInt.repr.toList)
  | .duration i => typedJson .duration (", \"nanoseconds\": ".toList ++ i.toInt.repr.toList)
  | .array vs => typedJson .array (", \"items\": [".toList ++ itemsJson [] vs ++ "]".toList)
  | .struct fs => typedJson .struct (", \"fields\": \x7b".toList ++ fieldsJson [] fs ++ "\x7d".toList)
  | .int64 _ => typedJson .int64 []

def itemsJson (separator : Text) : List (Value D) → Text
  | [] => []
  | v :: vs => separator ++ valueJson v ++ itemsJson ", ".toList vs

def fieldsJson (separator : Text) : List (String × Value D) → Text
  | [] => []
  | (name, v) :: fs =>
    separator ++ jsonString name.toList ++ ": ".toList ++ valueJson v ++ fieldsJson ", ".toList fs

end

theorem isChars_jsonChar (c : Char) : IsChars (jsonChar c) := by
  unfold jsonChar
  split
  · exact .escape (by decide) .nil
  split
  · exact .escape (by decide) .nil
  split
  · exact .escape (by decide) .nil
  split
  · exact .escape (by decide) .nil
  split
  · exact .escape (by decide) .nil
  split
  · rename_i hlow
    have hhex : ∀ n < 16, Json.IsHex (hexDigit n) := by decide
    exact .unicode (by decide) (by decide) (hhex _ (by omega)) (hhex _ (by omega)) .nil
  · rename_i hquote hbackslash _ _ _ hlow
    exact .plain (by omega) hquote hbackslash .nil

theorem isString_jsonString (s : Text) : IsString (jsonString s) := ⟨_, .flatMap isChars_jsonChar s, rfl⟩

def hexValue (c : Char) : Nat := if c.isDigit then c.toNat - '0'.toNat else c.toNat - 'a'.toNat + 10

def unescape : Text → Option (Char × Text)
  | [] => none
  | '\\' :: 'u' :: _ :: _ :: c :: d :: rest => some (Char.ofNat (16 * hexValue c + hexValue d), rest)
  | '\\' :: 'n' :: rest => some ('\n', rest)
  | '\\' :: 'r' :: rest => some ('\r', rest)
  | '\\' :: 't' :: rest => some ('\t', rest)
  | '\\' :: c :: rest => some (c, rest)
  | c :: rest => some (c, rest)

theorem unescape_jsonChar (c : Char) (rest : Text) : unescape (jsonChar c ++ rest) = some (c, rest) := by
  unfold jsonChar
  split
  · subst_vars
    rfl
  split
  · subst_vars
    rfl
  split
  · subst_vars
    rfl
  split
  · subst_vars
    rfl
  split
  · subst_vars
    rfl
  split
  · rename_i hlow
    have hhex : ∀ n < 16, hexValue (hexDigit n) = n := by decide
    have hvalue : Char.ofNat (16 * hexValue (hexDigit (c.toNat / 16)) + hexValue (hexDigit (c.toNat % 16))) = c := by
      rw [hhex _ (by omega), hhex _ (by omega), Nat.div_add_mod, Char.ofNat_toNat]
    have hrun : unescape (['\\', 'u', '0', '0', hexDigit (c.toNat / 16), hexDigit (c.toNat % 16)] ++ rest) =
        some (Char.ofNat (16 * hexValue (hexDigit (c.toNat / 16)) + hexValue (hexDigit (c.toNat % 16))), rest) := rfl
    rw [hrun, hvalue]
  · rename_i hquote hbackslash _ _ _ hlow
    rw [List.singleton_append, unescape.eq_def]
    split <;> simp_all

theorem head_jsonChar (c : Char) (rest : Text) : (jsonChar c ++ rest).head? ≠ some '"' := by
  intro hhead
  obtain ⟨tail, htail⟩ := List.head?_eq_some_iff.mp hhead
  have hrun := unescape_jsonChar c rest
  rw [htail] at hrun
  obtain ⟨rfl, -⟩ : '"' = c ∧ tail = rest := Prod.mk.inj (Option.some.inj hrun)
  simp [jsonChar] at htail

variable {s rest rest' separator : Text}

theorem chars_inj {t : Text} (h : s.flatMap jsonChar ++ '"' :: rest = t.flatMap jsonChar ++ '"' :: rest') :
    s = t ∧ rest = rest' := by
  induction s generalizing t with
  | nil =>
    cases t with
    | nil => exact ⟨rfl, (List.cons.inj h).2⟩
    | cons d t =>
      rw [List.flatMap_cons, List.append_assoc] at h
      exact absurd (by rw [← h]; rfl) (head_jsonChar d _)
  | cons c s ih =>
    cases t with
    | nil =>
      rw [List.flatMap_cons, List.append_assoc] at h
      exact absurd (by rw [h]; rfl) (head_jsonChar c _)
    | cons d t =>
      rw [List.flatMap_cons, List.append_assoc, List.flatMap_cons, List.append_assoc] at h
      have hrun := congrArg unescape h
      rw [unescape_jsonChar, unescape_jsonChar] at hrun
      obtain ⟨rfl, htail⟩ := Prod.mk.inj (Option.some.inj hrun)
      obtain ⟨rfl, hrest⟩ := ih htail
      exact ⟨rfl, hrest⟩

theorem jsonString_inj {t : Text} (h : jsonString s ++ rest = jsonString t ++ rest') :
    s = t ∧ rest = rest' := by
  simp only [jsonString, List.cons_append, List.append_assoc, List.cons.injEq, true_and] at h
  exact chars_inj h

theorem typedJson_eq (type : ValueType) (payload : Text) :
    typedJson type payload = '\x7b' :: ([' '] ++ (jsonString "type".toList ++ ([] ++ ':' :: ([' '] ++
      (jsonString (valueTypeName type).toList ++ (payload ++ [' ']))))) ++ ['\x7d']) := by
  have hopen : "\x7b \"type\": ".toList = '\x7b' :: ' ' :: (jsonString "type".toList ++ [':', ' ']) := by
    simp [jsonString, jsonChar]
  have hclose : " \x7d".toList = [' ', '\x7d'] := rfl
  unfold typedJson
  simp only [hopen, hclose, List.append_assoc, List.cons_append, List.nil_append]

theorem isValue_typedJson (type : ValueType) : IsValue (typedJson type []) := by
  rw [typedJson_eq]
  exact .object (.last Json.blank_space (isString_jsonString _) Json.blank_nil Json.blank_space
    (.string (isString_jsonString _)) Json.blank_space)

theorem isValue_member {type : ValueType} (key : Text) {value : Text} (hv : IsValue value) :
    IsValue (typedJson type (", ".toList ++ (jsonString key ++ (": ".toList ++ value)))) := by
  have hmember : IsMembers ([' '] ++ (jsonString key ++ ([] ++ ':' :: ([' '] ++ (value ++ [' ']))))) :=
    .last Json.blank_space (isString_jsonString _) Json.blank_nil Json.blank_space hv Json.blank_space
  have hobject := IsValue.object (.cons Json.blank_space (isString_jsonString "type".toList) Json.blank_nil
    Json.blank_space (.string (isString_jsonString (valueTypeName type).toList)) Json.blank_nil hmember)
  have hcomma : ", ".toList = [',', ' '] := rfl
  have hcolon : ": ".toList = [':', ' '] := rfl
  rw [typedJson_eq, hcomma, hcolon]
  simp only [List.append_assoc, List.cons_append, List.nil_append] at hobject ⊢
  exact hobject

/-- What the `%.17g` of the platform prints for a finite number is a number of JSON. -/
def PrintsNumbers (D : Type) [Double D] : Prop :=
  ∀ d : D, Double.isnan d = false → Double.isinf d = false → Json.IsNumber (Double.formatG 17 d).toList

theorem isValue_number (hprint : PrintsNumbers D) (type : ValueType) (d : D) :
    IsValue (typedJson type (", ".toList ++ numberJson d)) := by
  unfold numberJson
  split
  · exact isValue_member "special".toList (.string (isString_jsonString "nan".toList))
  split
  · split
    · exact isValue_member "special".toList (.string (isString_jsonString "-inf".toList))
    · exact isValue_member "special".toList (.string (isString_jsonString "inf".toList))
  · rename_i hnan hinf
    exact isValue_member "number".toList (.number (hprint d (by simpa using hnan) (by simpa using hinf)))

theorem isElements_itemsJson {vs : List (Value D)} {v : Value D} (hv : IsValue (valueJson v))
    (hvs : ∀ w ∈ vs, IsValue (valueJson w)) {a : Text} (ha : Blank a) :
    IsElements (a ++ (valueJson v ++ itemsJson ", ".toList vs)) := by
  induction vs generalizing v a with
  | nil => exact .last ha hv Json.blank_nil
  | cons w vs ih =>
    have hrest := ih (hvs w (List.mem_cons_self ..)) (fun u hu => hvs u (List.mem_cons_of_mem w hu)) Json.blank_space
    have hcons := IsElements.cons ha hv Json.blank_nil hrest
    simp only [itemsJson, List.append_assoc]
    exact hcons

theorem isMembers_fieldsJson {fs : List (String × Value D)} {f : String × Value D} (hf : IsValue (valueJson f.2))
    (hfs : ∀ g ∈ fs, IsValue (valueJson g.2)) {a : Text} (ha : Blank a) :
    IsMembers (a ++ (jsonString f.1.toList ++ (": ".toList ++ (valueJson f.2 ++ fieldsJson ", ".toList fs)))) := by
  induction fs generalizing f a with
  | nil => exact .last ha (isString_jsonString _) Json.blank_nil Json.blank_space hf Json.blank_nil
  | cons g fs ih =>
    have hrest := ih (hfs g (List.mem_cons_self ..)) (fun u hu => hfs u (List.mem_cons_of_mem g hu)) Json.blank_space
    have hcons := IsMembers.cons ha (isString_jsonString f.1.toList) Json.blank_nil Json.blank_space hf Json.blank_nil hrest
    simp only [fieldsJson, List.append_assoc]
    exact hcons

theorem isValue_items {vs : List (Value D)} (h : ∀ v ∈ vs, IsValue (valueJson v)) :
    IsValue ("[".toList ++ (itemsJson [] vs ++ "]".toList)) := by
  cases vs with
  | nil => exact .emptyArray Json.blank_nil
  | cons v vs =>
    have helements := isElements_itemsJson (h v (List.mem_cons_self ..)) (fun w hw => h w (List.mem_cons_of_mem v hw))
      Json.blank_nil
    exact .array helements

theorem isValue_fields {fs : List (String × Value D)} (h : ∀ f ∈ fs, IsValue (valueJson f.2)) :
    IsValue ("\x7b".toList ++ (fieldsJson [] fs ++ "\x7d".toList)) := by
  cases fs with
  | nil => exact .emptyObject Json.blank_nil
  | cons f fs =>
    have hmembers := isMembers_fieldsJson (h f (List.mem_cons_self ..)) (fun g hg => h g (List.mem_cons_of_mem f hg))
      Json.blank_nil
    have hobject := IsValue.object hmembers
    simp only [fieldsJson, List.append_assoc] at hobject ⊢
    exact hobject

mutual

theorem isValue_valueJson (hprint : PrintsNumbers D) : ∀ v : Value D, IsValue (valueJson v)
  | .number d => isValue_number hprint .number d
  | .bool true => isValue_member "bool".toList .true
  | .bool false => isValue_member "bool".toList .false
  | .string s => isValue_member "string".toList (.string (isString_jsonString s.toList))
  | .null => isValue_member "is_null".toList .true
  | .timestamp i => isValue_member "unix_ns".toList (.number (Json.isNumber_repr i.toInt))
  | .duration i => isValue_member "nanoseconds".toList (.number (Json.isNumber_repr i.toInt))
  | .array vs => by
    have hitems := @isValue_member .array "items".toList _ (isValue_items (isValue_all hprint vs))
    rw [valueJson, List.append_assoc]
    exact hitems
  | .struct fs => by
    have hfields := @isValue_member .struct "fields".toList _ (isValue_fields (isValue_allFields hprint fs))
    rw [valueJson, List.append_assoc]
    exact hfields
  | .int64 _ => isValue_typedJson .int64

theorem isValue_all (hprint : PrintsNumbers D) : ∀ vs : List (Value D), ∀ v ∈ vs, IsValue (valueJson v)
  | [] => fun _ hv => absurd hv List.not_mem_nil
  | v :: vs => List.forall_mem_cons.mpr ⟨isValue_valueJson hprint v, isValue_all hprint vs⟩

theorem isValue_allFields (hprint : PrintsNumbers D) :
    ∀ fs : List (String × Value D), ∀ f ∈ fs, IsValue (valueJson f.2)
  | [] => fun _ hf => absurd hf List.not_mem_nil
  | (_, v) :: fs => List.forall_mem_cons.mpr ⟨isValue_valueJson hprint v, isValue_allFields hprint fs⟩

end

/-! ### Equal texts -/

/-- Numbers that are equal up to the printed precision: all that are no numbers, infinities of one sign, and numbers whose
    17 digits are the same. -/
def SameNumber (x y : D) : Prop :=
  Double.isnan x = Double.isnan y ∧
    (Double.isnan x = false → Double.isinf x = Double.isinf y ∧
      if Double.isinf x then Double.lt x Double.zero = Double.lt y Double.zero
      else Double.formatG 17 x = Double.formatG 17 y)

mutual

def Same : Value D → Value D → Prop
  | .number x, .number y => SameNumber x y
  | .bool a, .bool b => a = b
  | .string s, .string t => s = t
  | .null, .null => True
  | .timestamp i, .timestamp j => i = j
  | .duration i, .duration j => i = j
  | .array vs, .array ws => SameAll vs ws
  | .struct fs, .struct gs => SameFields fs gs
  | .int64 i, .int64 j => i = j
  | _, _ => False

def SameAll : List (Value D) → List (Value D) → Prop
  | [], [] => True
  | v :: vs, w :: ws => Same v w ∧ SameAll vs ws
  | _, _ => False

def SameFields : List (String × Value D) → List (String × Value D) → Prop
  | [], [] => True
  | (n, v) :: fs, (m, w) :: gs => n = m ∧ Same v w ∧ SameFields fs gs
  | _, _ => False

end

theorem valueTypeName_inj {t u : ValueType} (h : valueTypeName t = valueTypeName u) : t = u := by
  cases t <;> cases u <;> simp_all [valueTypeName]

theorem typedJson_inj {t u : ValueType} {p q : Text}
    (h : typedJson t p ++ rest = typedJson u q ++ rest') :
    t = u ∧ p ++ ' ' :: '\x7d' :: rest = q ++ ' ' :: '\x7d' :: rest' := by
  have hclose : " \x7d".toList = [' ', '\x7d'] := rfl
  unfold typedJson at h
  simp only [hclose, List.append_assoc, List.append_cancel_left_eq, List.cons_append, List.nil_append] at h
  obtain ⟨hname, hpayload⟩ := jsonString_inj h
  exact ⟨valueTypeName_inj (String.toList_inj.mp hname), hpayload⟩

theorem exists_payload (v : Value D) : ∃ payload, valueJson v = typedJson v.type payload := by
  cases v <;> exact ⟨_, rfl⟩

theorem type_eq {v w : Value D} (h : valueJson v ++ rest = valueJson w ++ rest') :
    v.type = w.type := by
  obtain ⟨p, hp⟩ := exists_payload v
  obtain ⟨q, hq⟩ := exists_payload w
  rw [hp, hq] at h
  exact (typedJson_inj h).1

theorem repr_inj {i j : Int64}
    (h : i.toInt.repr.toList ++ ' ' :: rest = j.toInt.repr.toList ++ ' ' :: rest') : i = j ∧ rest = rest' := by
  obtain ⟨hrepr, hrest⟩ := Json.append_space_inj (Json.isNumber_repr _).space_not_mem (Json.isNumber_repr _).space_not_mem h
  exact ⟨Int64.toInt_inj.mp (Json.toList_repr_inj hrepr), hrest⟩

theorem numberJson_inj (hprint : PrintsNumbers D) {x y : D}
    (h : numberJson x ++ ' ' :: rest = numberJson y ++ ' ' :: rest') : SameNumber x y ∧ rest = rest' := by
  unfold numberJson at h
  unfold SameNumber
  cases hx : Double.isnan x with
  | true =>
    cases hy : Double.isnan y with
    | true =>
      simp [hx, hy] at h
      exact ⟨⟨rfl, by simp⟩, h⟩
    | false =>
      cases hiy : Double.isinf y with
      | true => cases hly : Double.lt y Double.zero <;> simp [hx, hy, hiy, hly] at h
      | false => simp [hx, hy, hiy] at h
  | false =>
    cases hy : Double.isnan y with
    | true =>
      cases hix : Double.isinf x with
      | true => cases hlx : Double.lt x Double.zero <;> simp [hx, hy, hix, hlx] at h
      | false => simp [hx, hy, hix] at h
    | false =>
      cases hix : Double.isinf x with
      | true =>
        cases hiy : Double.isinf y with
        | true =>
          cases hlx : Double.lt x Double.zero <;> cases hly : Double.lt y Double.zero <;>
            simp [hx, hy, hix, hiy, hlx, hly] at h ⊢
          · exact h
          · exact h
        | false => cases hlx : Double.lt x Double.zero <;> simp [hx, hy, hix, hiy, hlx] at h
      | false =>
        cases hiy : Double.isinf y with
        | true => cases hly : Double.lt y Double.zero <;> simp [hx, hy, hix, hiy, hly] at h
        | false =>
          simp only [hx, hy, hix, hiy, Bool.false_eq_true, if_false, List.append_assoc, List.append_cancel_left_eq] at h
          obtain ⟨htext, hrest⟩ := Json.append_space_inj (hprint x hx hix).space_not_mem
            (hprint y hy hiy).space_not_mem h
          exact ⟨⟨rfl, fun _ => ⟨rfl, by simpa using String.toList_injective htext⟩⟩, hrest⟩

theorem exists_valueJson (v : Value D) : ∃ tail, valueJson v = '\x7b' :: tail := by
  obtain ⟨payload, hpayload⟩ := exists_payload v
  rw [hpayload, typedJson_eq]
  exact ⟨_, rfl⟩

def Separates (separator : Text) : Prop := separator = [] ∨ separator = ", ".toList

theorem Separates.head (h : Separates separator) {close c : Char}
    (hclose : close = ']' ∨ close = '\x7d') (hc : c = '\x7b' ∨ c = '"') :
    (separator ++ c :: s).head? ≠ some close := by
  rcases h with rfl | rfl <;> rcases hclose with rfl | rfl <;> rcases hc with rfl | rfl <;> simp

theorem item_ne_close (h : Separates separator) (v : Value D) (vs : List (Value D)) :
    itemsJson separator (v :: vs) ++ rest ≠ ']' :: rest' := by
  obtain ⟨tail, htail⟩ := exists_valueJson v
  intro heq
  rw [itemsJson, htail, List.append_assoc, List.append_assoc, List.cons_append] at heq
  exact h.head (.inl rfl) (.inl rfl) (congrArg List.head? heq)

theorem field_ne_close (h : Separates separator) (f : String × Value D)
    (fs : List (String × Value D)) : fieldsJson separator (f :: fs) ++ rest ≠ '\x7d' :: rest' := by
  intro heq
  simp only [fieldsJson, jsonString, List.append_assoc, List.cons_append] at heq
  exact h.head (.inr rfl) (.inr rfl) (congrArg List.head? heq)

mutual

theorem valueJson_inj (hprint : PrintsNumbers D) : ∀ (v : Value D) {w : Value D} {rest rest' : Text}, NoInt64 v →
    valueJson v ++ rest = valueJson w ++ rest' → Same v w ∧ rest = rest'
  | .number x, w, rest, rest', _, h => by
    have htype := type_eq h
    cases w with
    | number y =>
      have hpayload := (typedJson_inj h).2
      simp only [List.append_assoc, List.append_cancel_left_eq] at hpayload
      obtain ⟨hsame, hrest⟩ := numberJson_inj hprint hpayload
      exact ⟨hsame, (List.cons.inj hrest).2⟩
    | _ => cases htype
  | .bool a, w, rest, rest', _, h => by
    have htype := type_eq h
    cases w with
    | bool b =>
      have hpayload := (typedJson_inj h).2
      cases a <;> cases b <;> simp at hpayload
      · exact ⟨rfl, hpayload⟩
      · exact ⟨rfl, hpayload⟩
    | _ => cases htype
  | .string s, w, rest, rest', _, h => by
    have htype := type_eq h
    cases w with
    | string t =>
      have hpayload := (typedJson_inj h).2
      simp only [List.append_assoc, List.append_cancel_left_eq] at hpayload
      obtain ⟨hstring, hrest⟩ := jsonString_inj hpayload
      exact ⟨String.toList_inj.mp hstring, (List.cons.inj (List.cons.inj hrest).2).2⟩
    | _ => cases htype
  | .null, w, rest, rest', _, h => by
    have htype := type_eq h
    cases w with
    | null =>
      have hpayload := (typedJson_inj h).2
      simp only [List.append_cancel_left_eq, List.cons.injEq, true_and] at hpayload
      exact ⟨trivial, hpayload⟩
    | _ => cases htype
  | .timestamp i, w, rest, rest', _, h => by
    have htype := type_eq h
    cases w with
    | timestamp j =>
      have hpayload := (typedJson_inj h).2
      simp only [List.append_assoc, List.append_cancel_left_eq] at hpayload
      obtain ⟨hvalue, hrest⟩ := repr_inj hpayload
      exact ⟨hvalue, (List.cons.inj hrest).2⟩
    | _ => cases htype
  | .duration i, w, rest, rest', _, h => by
    have htype := type_eq h
    cases w with
    | duration j =>
      have hpayload := (typedJson_inj h).2
      simp only [List.append_assoc, List.append_cancel_left_eq] at hpayload
      obtain ⟨hvalue, hrest⟩ := repr_inj hpayload
      exact ⟨hvalue, (List.cons.inj hrest).2⟩
    | _ => cases htype
  | .array vs, w, rest, rest', hv, h => by
    have htype := type_eq h
    cases w with
    | array ws =>
      have hpayload := (typedJson_inj h).2
      simp only [List.append_assoc, List.append_cancel_left_eq] at hpayload
      obtain ⟨hsame, hrest⟩ := itemsJson_inj hprint vs hv (.inl rfl) hpayload
      exact ⟨hsame, (List.cons.inj (List.cons.inj hrest).2).2⟩
    | _ => cases htype
  | .struct fs, w, rest, rest', hv, h => by
    have htype := type_eq h
    cases w with
    | struct gs =>
      have hpayload := (typedJson_inj h).2
      simp only [List.append_assoc, List.append_cancel_left_eq] at hpayload
      obtain ⟨hsame, hrest⟩ := fieldsJson_inj hprint fs hv (.inl rfl) hpayload
      exact ⟨hsame, (List.cons.inj (List.cons.inj hrest).2).2⟩
    | _ => cases htype
  | .int64 _, _, _, _, hv, _ => hv.elim

theorem itemsJson_inj (hprint : PrintsNumbers D) : ∀ (vs : List (Value D)) {ws : List (Value D)}
    {separator rest rest' : Text}, NoInt64All vs → Separates separator →
    itemsJson separator vs ++ ("]".toList ++ rest) = itemsJson separator ws ++ ("]".toList ++ rest') →
    SameAll vs ws ∧ rest = rest'
  | [], [], _, _, _, _, _, h => ⟨trivial, (List.cons.inj h).2⟩
  | [], w :: ws, _, _, _, _, hsep, h => absurd h.symm (item_ne_close hsep w ws)
  | v :: vs, [], _, _, _, _, hsep, h => absurd h (item_ne_close hsep v vs)
  | v :: vs, w :: ws, _, _, _, hv, hsep, h => by
    simp only [itemsJson, List.append_assoc, List.append_cancel_left_eq] at h
    obtain ⟨hsame, htail⟩ := valueJson_inj hprint v hv.1 h
    obtain ⟨hall, hrest⟩ := itemsJson_inj hprint vs hv.2 (.inr rfl) htail
    exact ⟨⟨hsame, hall⟩, hrest⟩

theorem fieldsJson_inj (hprint : PrintsNumbers D) : ∀ (fs : List (String × Value D)) {gs : List (String × Value D)}
    {separator rest rest' : Text}, NoInt64Fields fs → Separates separator →
    fieldsJson separator fs ++ ("\x7d".toList ++ rest) = fieldsJson separator gs ++ ("\x7d".toList ++ rest') →
    SameFields fs gs ∧ rest = rest'
  | [], [], _, _, _, _, _, h => ⟨trivial, (List.cons.inj h).2⟩
  | [], g :: gs, _, _, _, _, hsep, h => absurd h.symm (field_ne_close hsep g gs)
  | f :: fs, [], _, _, _, _, hsep, h => absurd h (field_ne_close hsep f fs)
  | (name, v) :: fs, (name', w) :: gs, _, _, _, hv, hsep, h => by
    simp only [fieldsJson, List.append_assoc, List.append_cancel_left_eq] at h
    obtain ⟨hname, hvalue⟩ := jsonString_inj h
    rw [List.append_cancel_left_eq] at hvalue
    obtain ⟨hsame, htail⟩ := valueJson_inj hprint v hv.1 hvalue
    obtain ⟨hall, hrest⟩ := fieldsJson_inj hprint fs hv.2 (.inr rfl) htail
    exact ⟨⟨String.toList_inj.mp hname, hsame, hall⟩, hrest⟩

end

/-! ### Values with an `int64` -/

mutual

def nextInt64 : Value D → Value D
  | .array vs => .array (nextInt64All vs)
  | .struct fs => .struct (nextInt64Fields fs)
  | .int64 i => .int64 (i + 1)
  | .number d => .number d
  | .bool b => .bool b
  | .string s => .string s
  | .null => .null
  | .timestamp i => .timestamp i
  | .duration i => .duration i

def nextInt64All : List (Value D) → List (Value D)
  | [] => []
  | v :: vs => nextInt64 v :: nextInt64All vs

def nextInt64Fields : List (String × Value D) → List (String × Value D)
  | [] => []
  | (name, v) :: fs => (name, nextInt64 v) :: nextInt64Fields fs

end

mutual

theorem valueJson_nextInt64 : ∀ v : Value D, valueJson (nextInt64 v) = valueJson v
  | .array vs => by rw [nextInt64, valueJson, valueJson, itemsJson_nextInt64 vs]
  | .struct fs => by rw [nextInt64, valueJson, valueJson, fieldsJson_nextInt64 fs]
  | .int64 _ | .number _ | .bool _ | .string _ | .null | .timestamp _ | .duration _ => rfl

theorem itemsJson_nextInt64 : ∀ (vs : List (Value D)) {separator : Text},
    itemsJson separator (nextInt64All vs) = itemsJson separator vs
  | [], _ => rfl
  | v :: vs, _ => by rw [nextInt64All, itemsJson, itemsJson, valueJson_nextInt64 v, itemsJson_nextInt64 vs]

theorem fieldsJson_nextInt64 : ∀ (fs : List (String × Value D)) {separator : Text},
    fieldsJson separator (nextInt64Fields fs) = fieldsJson separator fs
  | [], _ => rfl
  | (name, v) :: fs, _ => by
    rw [nextInt64Fields, fieldsJson, fieldsJson, valueJson_nextInt64 v, fieldsJson_nextInt64 fs]

end

mutual

theorem noInt64_of_same : ∀ v : Value D, Same v (nextInt64 v) → NoInt64 v
  | .array vs, h => noInt64All_of_same vs h
  | .struct fs, h => noInt64Fields_of_same fs h
  | .int64 i, h => by
    have hnext : i = i + 1 := h
    have hone : (1 : Int64) = 0 := Int64.left_eq_add.mp hnext
    exact absurd hone (by decide)
  | .number _, _ | .bool _, _ | .string _, _ | .null, _ | .timestamp _, _ | .duration _, _ => trivial

theorem noInt64All_of_same : ∀ vs : List (Value D), SameAll vs (nextInt64All vs) → NoInt64All vs
  | [], _ => trivial
  | v :: vs, h => ⟨noInt64_of_same v h.1, noInt64All_of_same vs h.2⟩

theorem noInt64Fields_of_same : ∀ fs : List (String × Value D), SameFields fs (nextInt64Fields fs) → NoInt64Fields fs
  | [], _ => trivial
  | (_, v) :: fs, h => ⟨noInt64_of_same v h.2.1, noInt64Fields_of_same fs h.2.2⟩

end

def WritesFaithfully (v : Value D) : Prop :=
  Json.IsJson (valueJson v) ∧ ∀ w : Value D, valueJson v = valueJson w → Same v w

/-- Exactly the values with an `int64` are written like others. -/
theorem writesFaithfully_iff (hprint : PrintsNumbers D) {v : Value D} : WritesFaithfully v ↔ NoInt64 v := by
  constructor
  · rintro ⟨-, hsame⟩
    exact noInt64_of_same v (hsame _ (valueJson_nextInt64 v).symm)
  · refine fun hno => ⟨(isValue_valueJson hprint v).isJson, fun w hw => ?_⟩
    exact (@valueJson_inj D _ hprint v w [] [] hno (by rw [hw])).1

theorem printsNumbers_int : PrintsNumbers Int := fun d _ _ => Json.isNumber_repr d

theorem writesFaithfully_array : WritesFaithfully (.array [.number (1 : Int), .string "\"", .null]) :=
  (writesFaithfully_iff printsNumbers_int).mpr ⟨trivial, trivial, trivial, trivial⟩

theorem not_writesFaithfully : ¬WritesFaithfully (.int64 1 : Value Int) := by
  rintro ⟨-, hsame⟩
  have heq : (1 : Int64) = 2 := hsame (.int64 2) rfl
  exact absurd heq (by decide)

end Cxpr.EvalSnapshot
