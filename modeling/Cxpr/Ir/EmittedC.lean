import Cxpr.Ir.Codegen

/-! What the functions of the C backend compute: the meaning of every statement template on a stack of doubles, or of
    scalars and arrays. No meaning is given to a text that does not compile, nor to a run past the end of an array. -/

namespace Cxpr.Ir.Codegen
variable {D : Type}

structure CLib (D : Type) where
  fmin : D → D → D
  fmax : D → D → D
  nan : D

variable [Double D]

def trunc (d : D) : D := if Double.lt d Double.zero then Double.ceil d else Double.floor d

def isInteger (digits : List Char) : Bool := !digits.isEmpty && digits.all Char.isDigit

/-- The value of a literal: an integer constant, or a floating constant, which starts with a digit. -/
def literal (digits : List Char) : Option D :=
  if isInteger digits then some (Double.ofNat (Nat.ofDigitChars 10 digits 0))
  else if (digits.head?.any Char.isDigit) then Double.strtod (String.ofList digits)
  else none

/-- The value of a text as a constant expression of C. A minus before an integer constant is an operation on integers,
    which have no negative zero. -/
def constantOf (text : String) : Option D :=
  match text.toList with
  | '-' :: digits =>
    if isInteger digits then
      some (match Nat.ofDigitChars 10 digits 0 with
        | 0 => Double.zero
        | n + 1 => Double.neg (Double.ofNat (n + 1)))
    else (literal digits).map Double.neg
  | digits => literal digits

def CFunc.unary : CFunc → Option (D → D)
  | .sqrt => some Double.sqrt
  | .fabs => some Double.fabs
  | .floor => some Double.floor
  | .ceil => some Double.ceil
  | .round => some Double.round
  | _ => none

def CFunc.binary (lib : CLib D) : CFunc → Option (D → D → D)
  | .fmod => some Double.fmod
  | .pow => some Double.pow
  | .fmin => some lib.fmin
  | .fmax => some lib.fmax
  | _ => none

def COp.apply : COp → D → D → D
  | .add => Double.add
  | .sub => Double.sub
  | .mul => Double.mul
  | .div => Double.div

def cmpApply (op : Cmp) (a b : D) : Bool :=
  match op with
  | .eq => Double.eq a b
  | .neq => Double.ne a b
  | .lt => Double.lt a b
  | .lte => Double.le a b
  | .gt => Double.gt a b
  | .gte => Double.ge a b

structure CState (D : Type) where
  stack : List D := []
  locals : List D := []

inductive Flow (D : Type) where
  | next (state : CState D)
  | goto (target : Nat) (state : CState D)
  | ret (value : D)

structure CFrame (D : Type) where
  params : List (String × D)
  stackSize : Nat

omit [Double D] in
def CFrame.param (f : CFrame D) (name : String) : Option D := f.params.lookup name

omit [Double D] in
def CFrame.sees (f : CFrame D) (fn : CFunc) : Bool := !(f.params.map (·.1)).contains fn.name

omit [Double D] in
/-- `_cx_s[_cx_sp++] = value`. -/
def CState.push (f : CFrame D) (s : CState D) (value : D) : Option (Flow D) :=
  if s.stack.length < f.stackSize then some (.next { s with stack := value :: s.stack }) else none

def Stmt.exec (lib : CLib D) (f : CFrame D) (s : CState D) : Stmt → Option (Flow D)
  | .pushConst text => do s.push f (← constantOf text)
  | .pushBool value => s.push f (Double.ofBool value)
  | .pushArg name => do s.push f (← f.param name)
  | .pushLocal index => do s.push f (← s.locals[index]?)
  | .square =>
    match s.stack with
    | a :: rest => some (.next { s with stack := Double.mul a a :: rest })
    | _ => none
  | .arith op =>
    match s.stack with
    | b :: a :: rest => some (.next { s with stack := op.apply a b :: rest })
    | _ => none
  | .compare op =>
    match s.stack with
    | b :: a :: rest => some (.next { s with stack := Double.ofBool (cmpApply op a b) :: rest })
    | _ => none
  | .not =>
    match s.stack with
    | a :: rest => some (.next { s with stack := Double.ofBool (Double.eq a Double.zero) :: rest })
    | _ => none
  | .neg =>
    match s.stack with
    | a :: rest => some (.next { s with stack := Double.neg a :: rest })
    | _ => none
  | .sign =>
    match s.stack with
    | a :: rest => some (.next { s with stack := Ir.sign a :: rest })
    | _ => none
  | .callUnary fn =>
    match (fn.unary : Option (D → D)), f.sees fn, s.stack with
    | some g, true, a :: rest => some (.next { s with stack := g a :: rest })
    | _, _, _ => none
  | .callBinary fn =>
    match fn.binary lib, f.sees fn, s.stack with
    | some g, true, b :: a :: rest => some (.next { s with stack := g a b :: rest })
    | _, _, _ => none
  | .callFold fn argc =>
    match fn.binary lib, f.sees fn, (s.stack.take argc).reverse with
    | some g, true, a :: rest =>
      if s.stack.length < argc then none else some (.next { s with stack := rest.foldl g a :: s.stack.drop argc })
    | _, _, _ => none
  | .clamp =>
    match s.stack with
    | hi :: lo :: v :: rest =>
      let v := if Double.lt v lo then lo else v
      some (.next { s with stack := (if Double.gt v hi then hi else v) :: rest })
    | _ => none
  | .jump target => some (.goto target s)
  | .jumpIfZero target =>
    match s.stack with
    | a :: rest =>
      some (if Double.eq a Double.zero then .goto target { s with stack := rest } else .next { s with stack := rest })
    | _ => none
  | .jumpIfNonzero target =>
    match s.stack with
    | a :: rest =>
      some (if Double.ne a Double.zero then .goto target { s with stack := rest } else .next { s with stack := rest })
    | _ => none
  | .storeLocal index =>
    match s.stack with
    | a :: rest =>
      if index < s.locals.length then some (.next ⟨rest, s.locals.set index a⟩) else none
    | _ => none
  | .ret =>
    match s.stack with
    | a :: _ => some (.ret a)
    | _ => none

def Stmt.calls : Stmt → Option CFunc
  | .callUnary fn | .callBinary fn | .callFold fn _ => some fn
  | _ => none

def execAll (lib : CLib D) (f : CFrame D) : List Stmt → CState D → Option (Flow D)
  | [], s => some (.next s)
  | stmt :: rest, s =>
    match stmt.exec lib f s with
    | some (.next s) => execAll lib f rest s
    | flow => flow

def runFrom (lib : CLib D) (f : CFrame D) (body : List (List Stmt)) : Nat → Nat → CState D → Option D
  | 0, _, _ => none
  | fuel + 1, ip, s =>
    match body[ip]? with
    | none => none
    | some stmts =>
      match execAll lib f stmts s with
      | some (.next s) => runFrom lib f body fuel (ip + 1) s
      | some (.goto target s) => runFrom lib f body fuel target s
      | some (.ret d) => some d
      | none => none

structure CValue (D : Type) where
  kind : Nat
  d : D
  start : Nat
  count : Nat

omit [Double D] in
def CValue.scalar (d : D) : CValue D := ⟨0, d, 0, 0⟩

structure ArrayState (D : Type) where
  stack : List (CValue D) := []
  arena : List (CValue D) := []

inductive CResult (D : Type) where
  | plain (value : D)
  | checked (value : D) (status : Nat)

inductive ArrayFlow (D : Type) where
  | next (state : ArrayState D)
  | ret (result : CResult D)

def CResult.failed (lib : CLib D) (checked : Bool) (status : Nat) : CResult D :=
  if checked then .checked lib.nan status else .plain lib.nan

omit [Double D] in
/-- `_cx_s[_cx_sp++] = value`. -/
def ArrayState.push (f : CFrame D) (s : ArrayState D) (value : CValue D) : Option (ArrayFlow D) :=
  if s.stack.length < f.stackSize then some (.next { s with stack := value :: s.stack }) else none

def invalidIndex (i a : CValue D) : Bool :=
  i.kind != 0 || !Double.isfinite i.d || Double.lt i.d Double.zero || Double.ne (trunc i.d) i.d ||
    Double.gt i.d (Double.ofNat sizeMax) || a.kind != 1

def ArrayStmt.exec (lib : CLib D) (f : CFrame D) (checked : Bool) (s : ArrayState D) : ArrayStmt → Option (ArrayFlow D)
  | .pushConst text => do s.push f (.scalar (← constantOf text))
  | .pushBool value => s.push f (.scalar (Double.ofBool value))
  | .pushArg name => do s.push f (.scalar (← f.param name))
  | .buildArray count =>
    if s.stack.length < count || f.stackSize < s.arena.length + count then none
    else
      ArrayState.push f ⟨s.stack.drop count, s.arena ++ (s.stack.take count).reverse⟩
        ⟨1, Double.zero, s.arena.length, count⟩
  | .index =>
    match s.stack with
    | i :: a :: rest =>
      if invalidIndex i a then some (.ret (.failed lib checked 1))
      else if a.count ≤ Double.toSize i.d then some (.ret (.failed lib checked 2))
      else do
        let element ← s.arena[a.start + Double.toSize i.d]?
        ArrayState.push f { s with stack := rest } element
    | _ => none
  | .arith op =>
    match s.stack with
    | b :: a :: rest => some (.next { s with stack := .scalar (op.apply a.d b.d) :: rest })
    | _ => none
  | .compare op =>
    match s.stack with
    | b :: a :: rest => some (.next { s with stack := .scalar (Double.ofBool (cmpApply op a.d b.d)) :: rest })
    | _ => none
  | .neg =>
    match s.stack with
    | a :: rest => some (.next { s with stack := { a with d := Double.neg a.d } :: rest })
    | _ => none
  | .not =>
    match s.stack with
    | a :: rest => some (.next { s with stack := { a with d := Double.ofBool (Double.eq a.d Double.zero) } :: rest })
    | _ => none
  | .ret =>
    match s.stack with
    | r :: _ =>
      some (.ret (if r.kind = 0 then (if checked then .checked r.d 0 else .plain r.d) else .failed lib checked 3))
    | _ => none

def runArray (lib : CLib D) (f : CFrame D) (checked : Bool) : List ArrayStmt → ArrayState D → Option (CResult D)
  | [], _ => none
  | stmt :: rest, s =>
    match stmt.exec lib f checked s with
    | some (.next s) => runArray lib f checked rest s
    | some (.ret result) => some result
    | none => none

/-- The functions, macros and types of the C library that an array-capable statement uses. -/
def ArrayStmt.uses : ArrayStmt → List String
  | .index => ["trunc", "SIZE_MAX"]
  | .ret => ["NAN"]
  | _ => []

def CFunction.libraryNames : CFunction → List String
  | .scalar fn => (fn.body.flatten.filterMap Stmt.calls).map CFunc.name
  | .array fn => "size_t" :: fn.body.flatMap ArrayStmt.uses

/-- A call of an emitted function with these arguments returns; the text of an array-capable one does not compile if a
    parameter hides what it uses of the library. -/
def CFunction.Returns (lib : CLib D) (arguments : List D) (result : CResult D) : CFunction → Prop
  | .scalar fn =>
    ∃ fuel d, runFrom lib ⟨fn.signature.params.zip arguments, fn.stackSize⟩ fn.body fuel 0
      { locals := List.replicate fn.localSlots Double.zero } = some d ∧ result = .plain d
  | .array fn =>
    (∀ name ∈ (CFunction.array fn).libraryNames, name ∉ fn.signature.params) ∧
      runArray lib ⟨fn.signature.params.zip arguments, fn.size⟩ fn.checked fn.body {} = some result

end Cxpr.Ir.Codegen
