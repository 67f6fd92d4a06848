import Mathlib.Data.List.AList
import Cxpr.Ast

/-! Evaluation contexts (`src/context`). A context is one store per value type for variables and one per type for
    parameters, with a chain of parent contexts behind it. Every setter keeps the per-type stores apart by removing
    the name from the others by hand; which ones it removes is transcribed setter by setter. -/

namespace Cxpr

abbrev NameMap (α : Type) := AList (fun _ : String => α)

/-- The storage of one `cxpr_context`. The entry caches in front of `vars` and `params` hold no data of their
    own and are left out. -/
structure Frame (D : Type) where
  vars : NameMap D := ∅
  params : NameMap D := ∅
  bools : NameMap Bool := ∅
  boolParams : NameMap Bool := ∅
  int64s : NameMap Int64 := ∅
  int64Params : NameMap Int64 := ∅
  strings : NameMap String := ∅
  stringParams : NameMap String := ∅
  structs : NameMap (List (String × Value D)) := ∅
  cachedStructs : NameMap (List (String × Value D)) := ∅
  arrays : NameMap (List (Value D)) := ∅
  arrayParams : NameMap (List (Value D)) := ∅
  variablesVersion : UInt64 := 1
  paramsVersion : UInt64 := 1
  /-- Results of the evaluator whose scope is attached, by expression name. -/
  expressionScope : Option (String → Option (Value D)) := none
  /-- The nesting of `cxpr_eval_memo_enter`; the memo table is used only inside. -/
  evalMemoDepth : Nat := 0
  /-- The memo table: call nodes with their results, oldest first. -/
  evalMemo : List (Ast D × Value D) := []

/-- A context with its parents: the head is the context itself, the tail its `parent` chain. -/
abbrev Context (D : Type) := List (Frame D)

namespace Frame
variable {D : Type}

/-- `cxpr_context_set_prehashed` and `cxpr_context_set`. -/
def set (f : Frame D) (name : String) (value : D) : Frame D :=
  { f with
    bools := f.bools.erase name
    int64s := f.int64s.erase name
    strings := f.strings.erase name
    arrays := f.arrays.erase name
    structs := f.structs.erase name
    vars := f.vars.insert name value
    -- only a new key changes the version
    variablesVersion := if name ∈ f.vars then f.variablesVersion else f.variablesVersion + 1 }

def setBool (f : Frame D) (name : String) (value : Bool) : Frame D :=
  { f with
    strings := f.strings.erase name
    int64s := f.int64s.erase name
    arrays := f.arrays.erase name
    structs := f.structs.erase name
    bools := f.bools.insert name value
    variablesVersion := f.variablesVersion + 1 }

def setInt64 (f : Frame D) (name : String) (value : Int64) : Frame D :=
  { f with
    bools := f.bools.erase name
    strings := f.strings.erase name
    arrays := f.arrays.erase name
    structs := f.structs.erase name
    int64s := f.int64s.insert name value
    variablesVersion := f.variablesVersion + 1 }

def setString (f : Frame D) (name : String) (value : String) : Frame D :=
  { f with
    bools := f.bools.erase name
    arrays := f.arrays.erase name
    structs := f.structs.erase name
    strings := f.strings.insert name value
    variablesVersion := f.variablesVersion + 1 }

def setStruct (f : Frame D) (name : String) (value : List (String × Value D)) : Frame D :=
  { f with structs := f.structs.insert name value }

def setCachedStruct (f : Frame D) (name : String) (value : List (String × Value D)) : Frame D :=
  { f with cachedStructs := f.cachedStructs.insert name value }

def setValue (f : Frame D) (name : String) : Value D → Frame D
  | .number d => f.set name d
  | .bool b => f.setBool name b
  | .int64 i => f.setInt64 name i
  | .string str => f.setString name str
  | .struct s =>
    { f with
      bools := f.bools.erase name
      strings := f.strings.erase name
      arrays := f.arrays.erase name }.setStruct name s
  | .array a =>
    { f with
      bools := f.bools.erase name
      strings := f.strings.erase name
      structs := f.structs.erase name
      arrays := f.arrays.insert name a
      variablesVersion := f.variablesVersion + 1 }
  | .null | .timestamp _ | .duration _ => f

/-- `cxpr_context_set_param_prehashed` and `cxpr_context_set_param`. -/
def setParam (f : Frame D) (name : String) (value : D) : Frame D :=
  { f with
    boolParams := f.boolParams.erase name
    int64Params := f.int64Params.erase name
    stringParams := f.stringParams.erase name
    arrayParams := f.arrayParams.erase name
    structs := f.structs.erase name
    params := f.params.insert name value
    paramsVersion := if name ∈ f.params then f.paramsVersion else f.paramsVersion + 1 }

def setParamBool (f : Frame D) (name : String) (value : Bool) : Frame D :=
  { f with
    stringParams := f.stringParams.erase name
    int64Params := f.int64Params.erase name
    arrayParams := f.arrayParams.erase name
    structs := f.structs.erase name
    boolParams := f.boolParams.insert name value
    paramsVersion := f.paramsVersion + 1 }

def setParamInt64 (f : Frame D) (name : String) (value : Int64) : Frame D :=
  { f with
    boolParams := f.boolParams.erase name
    stringParams := f.stringParams.erase name
    int64Params := f.int64Params.insert name value
    paramsVersion := f.paramsVersion + 1 }

def setParamString (f : Frame D) (name : String) (value : String) : Frame D :=
  { f with
    boolParams := f.boolParams.erase name
    arrayParams := f.arrayParams.erase name
    structs := f.structs.erase name
    stringParams := f.stringParams.insert name value
    paramsVersion := f.paramsVersion + 1 }

/-- `cxpr_context_set_param_value`. A struct parameter shares `structs` with the variables. -/
def setParamValue (f : Frame D) (name : String) : Value D → Frame D
  | .number d => f.setParam name d
  | .bool b => f.setParamBool name b
  | .int64 i => f.setParamInt64 name i
  | .string str => f.setParamString name str
  | .struct s =>
    { f with
      boolParams := f.boolParams.erase name
      stringParams := f.stringParams.erase name
      arrayParams := f.arrayParams.erase name
      structs := f.structs.insert name s
      paramsVersion := f.paramsVersion + 1 }
  | .array a =>
    { f with
      boolParams := f.boolParams.erase name
      stringParams := f.stringParams.erase name
      structs := f.structs.erase name
      arrayParams := f.arrayParams.insert name a
      paramsVersion := f.paramsVersion + 1 }
  | .null | .timestamp _ | .duration _ => f

/-! ### Lookup -/

/-- What `cxpr_context_get_typed` finds on this context alone, before it asks the parent. -/
def getTyped (f : Frame D) (name : String) : Option (Value D) :=
  (f.expressionScope.bind (· name)) <|>
  ((f.bools.lookup name).map .bool <|>
  ((f.int64s.lookup name).map .int64 <|>
  ((f.strings.lookup name).map .string <|>
  ((f.arrays.lookup name).map .array <|>
  ((f.vars.lookup name).map .number <|>
  ((f.structs.lookup name).map .struct <|>
  (f.cachedStructs.lookup name).map .struct))))))

def dottedParam (f : Frame D) (name : String) : Option (Value D) :=
  match name.splitOn "." with
  | [root, field] =>
    if root == "" || 256 ≤ root.utf8ByteSize then none
    else (f.structs.lookup root).bind (structGetField · field)
  | _ => none

end Frame

namespace Context
variable {D : Type}

def new : Context D := [{}]

def overlayNew (parent : Context D) : Context D := {} :: parent

def update (ctx : Context D) (write : Frame D → Frame D) : Context D :=
  match ctx with
  | [] => []
  | f :: parent => write f :: parent

/-- `cxpr_context_get_typed`; `none` is `found = false`. -/
def getTyped (ctx : Context D) (name : String) : Option (Value D) :=
  match ctx with
  | [] => none
  | f :: parent => f.getTyped name <|> getTyped parent name

def getBool (ctx : Context D) (name : String) : Option Bool :=
  match ctx with
  | [] => none
  | f :: parent => f.bools.lookup name <|> getBool parent name

def getString (ctx : Context D) (name : String) : Option String :=
  match ctx with
  | [] => none
  | f :: parent => f.strings.lookup name <|> getString parent name

def getStruct (ctx : Context D) (name : String) : Option (List (String × Value D)) :=
  match ctx with
  | [] => none
  | f :: parent => f.structs.lookup name <|> getStruct parent name

def getCachedStruct (ctx : Context D) (name : String) : Option (List (String × Value D)) :=
  match ctx with
  | [] => none
  | f :: parent => f.cachedStructs.lookup name <|> getCachedStruct parent name

def getParam (ctx : Context D) (name : String) : Option D :=
  match ctx with
  | [] => none
  | f :: parent => f.params.lookup name <|> getParam parent name

def getParamBool (ctx : Context D) (name : String) : Option Bool :=
  match ctx with
  | [] => none
  | f :: parent => f.boolParams.lookup name <|> getParamBool parent name

def getParamString (ctx : Context D) (name : String) : Option String :=
  match ctx with
  | [] => none
  | f :: parent => f.stringParams.lookup name <|> getParamString parent name

/-- `cxpr_context_get_param_typed`. A number is looked up along the whole chain before the other types of the
    parent. -/
def getParamTyped (ctx : Context D) (name : String) : Option (Value D) :=
  match ctx with
  | [] => none
  | f :: parent =>
    (f.boolParams.lookup name).map .bool <|>
    ((f.int64Params.lookup name).map .int64 <|>
    ((f.stringParams.lookup name).map .string <|>
    ((f.arrayParams.lookup name).map .array <|>
    ((f.structs.lookup name).map .struct <|>
    (f.dottedParam name <|>
    ((getParam ctx name).map .number <|>
    getParamTyped parent name))))))

def getField (ctx : Context D) (name field : String) : Option (Value D) :=
  match getStruct ctx name with
  | some s => structGetField s field
  | none =>
    match getTyped ctx name with
    | some (.struct s) => structGetField s field
    | _ => none

variable [Double D]

/-- `cxpr_context_get`: a number, or a bool as one. -/
def get (ctx : Context D) (name : String) : Option D :=
  match getTyped ctx name with
  | some (.number d) => some d
  | some (.bool b) => some (Double.ofBool b)
  | _ => none

/-- `cxpr_ir_context_get_prehashed`: bools and numbers only, context by context. -/
def getPrehashed (ctx : Context D) (name : String) : Option D :=
  match ctx with
  | [] => none
  | f :: parent =>
    (f.bools.lookup name).map Double.ofBool <|> (f.vars.lookup name <|> getPrehashed parent name)

end Context
end Cxpr
