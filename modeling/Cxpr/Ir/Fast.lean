import Cxpr.Ir.Typed

/-! The scalar and the bool fast executors (`src/ir/exec/fast.c`). They check neither depth nor types: the scalar one
    keeps every value as a double, the bool one numbers and bools on two stacks. Taking a value from an empty stack is
    undefined in C and an underflow here. -/

namespace Cxpr.Ir
variable {S D : Type} [Double D]

def scalarOf (message : String) : Value D → Except Fault D
  | .number d => .ok d
  | .bool b => .ok (Double.ofBool b)
  | _ => runtimeError message

def runHost {α : Type} (s : S) (eff : Eff S α) : Except Fault (α × S) :=
  match eff s with
  | .error e => .error (.raised e)
  | .ok r => .ok r

def fastArith (op : Arith) (a b : D) : Except Fault D :=
  match op with
  | .add => .ok (Double.add a b)
  | .sub => .ok (Double.sub a b)
  | .mul => .ok (Double.mul a b)
  | .div =>
    if Double.eq b Double.zero then .error (.raised ⟨.divisionByZero, "Division by zero"⟩) else .ok (Double.div a b)
  | .mod =>
    if Double.eq b Double.zero then .error (.raised ⟨.divisionByZero, "Modulo by zero"⟩) else .ok (Double.fmod a b)
  | .pow => .ok (Double.pow a b)

def fastCmp (op : Cmp) (a b : D) : Bool :=
  match op with
  | .eq => Double.eq a b
  | .neq => Double.ne a b
  | .lt => Double.lt a b
  | .lte => Double.le a b
  | .gt => Double.gt a b
  | .gte => Double.ge a b

def fastIntrinsic (op : Intrinsic) (a : D) : D :=
  match op with
  | .neg => Double.neg a
  | .sign => sign a
  | .sqrt => Double.sqrt a
  | .abs => Double.fabs a
  | .floor => Double.floor a
  | .ceil => Double.ceil a
  | .round => Double.round a

/-- `CLAMP` on doubles. -/
def fastClamp (a lo hi : D) : D :=
  let a := if Double.lt a lo then lo else a
  if Double.gt a hi then hi else a

def nativeCall : Instr D → Option (FuncEntry D × Ast D × Nat × (List D → D))
  | .callUnary func f payload => some (func, payload, 1, fun ds => match ds with | [x] => f x | _ => Double.zero)
  | .callBinary func f payload =>
    some (func, payload, 2, fun ds => match ds with | [x, y] => f x y | _ => Double.zero)
  | .callTernary func f payload =>
    some (func, payload, 3, fun ds => match ds with | [x, y, z] => f x y z | _ => Double.zero)
  | _ => none

omit [Double D] in
/-- The first `n` values of a stack, oldest first, and the rest. -/
def popMany {α : Type} (n : Nat) (stack : List α) : Except Fault (List α × List α) :=
  if stack.length < n then .error .stackUnderflow else .ok ((stack.take n).reverse, stack.drop n)

def fastNative (host : Host S D) (s : S) (func : FuncEntry D) (payload : Ast D) (f : List D → D) (args : List D) :
    Except Fault (Value D × S) := do
  let (memo, s) ← runHost s (host.memoGet func payload)
  match memo with
  | some v => return (v, s)
  | none =>
    let ((), s) ← runHost s (host.memoSet func payload (.number (f args)))
    return (.number (f args), s)

/-- The result of `CALL_FUNC`: from the memo, of the value function or of the plain one. -/
def fastCallFunc (host : Host S D) (s : S) (func : FuncEntry D) (payload : Ast D) (args : List D) :
    Except Fault (Value D × S) := do
  let (memo, s) ← runHost s (host.memoGet func payload)
  match memo with
  | some v => return (v, s)
  | none =>
    match func.valueFunc, func.syncFunc with
    | some f, _ =>
      let v := f (args.map .number)
      let _ ← scalarOf "Function did not evaluate to scalar" v
      let ((), s) ← runHost s (host.memoSet func payload v)
      return (v, s)
    | none, some f =>
      let ((), s) ← runHost s (host.memoSet func payload (.number (f args)))
      return (.number (f args), s)
    | none, none => runtimeError "Unsupported fast IR opcode"

def definedScalar : Value D → Except Fault (Value D)
  | .number d => .ok (.number d)
  | .bool b => .ok (.bool b)
  | _ => mismatch "Defined function returned non-scalar"

/-- `cxpr_ir_exec_scalar_fast` between two instructions. -/
structure ScalarMachine (S D : Type) where
  ip : Nat := 0
  stack : List D := []
  locals : List D
  host : S

inductive ScalarStep (S D : Type) where
  | next (machine : ScalarMachine S D)
  | halt (value : D) (host : S)

namespace ScalarMachine

omit [Double D] in
def pushNext (m : ScalarMachine S D) (d : D) : ScalarStep S D := .next { m with ip := m.ip + 1, stack := d :: m.stack }

omit [Double D] in
def pop1 (m : ScalarMachine S D) : Except Fault (D × ScalarMachine S D) :=
  match m.stack with
  | a :: rest => .ok (a, { m with stack := rest })
  | [] => .error .stackUnderflow

omit [Double D] in
def pop2 (m : ScalarMachine S D) : Except Fault (D × D × ScalarMachine S D) :=
  match m.stack with
  | b :: a :: rest => .ok (a, b, { m with stack := rest })
  | _ => .error .stackUnderflow

end ScalarMachine

def loadScalar (s : S) (eff : Eff S (Option D)) (message : String) : Except Fault (D × S) := do
  let (v, s) ← runHost s eff
  match v with
  | some d => return (d, s)
  | none => makeNotFound message

/-- One instruction of `cxpr_ir_exec_scalar_fast`. -/
def scalarStep (host : Host S D) (m : ScalarMachine S D) (instr : Instr D) : Except Fault (ScalarStep S D) :=
  match instr with
  | .pushConst v => .ok (m.pushNext v)
  | .pushBool v => .ok (m.pushNext (Double.ofBool (Double.ne v Double.zero)))
  | .loadLocal i =>
    match m.locals[i]? with
    | some d => .ok (m.pushNext d)
    | none => runtimeError "Unknown local variable"
  | .loadLocalSquare i =>
    match m.locals[i]? with
    | some d => .ok (m.pushNext (Double.mul d d))
    | none => runtimeError "Unknown local variable"
  | .loadVar name _ => do
    let (d, s) ← loadScalar m.host (host.lookupCachedVariable m.ip name) (unknownMessage "Unknown identifier" name)
    return { m with host := s }.pushNext d
  | .loadVarSquare name => do
    let (d, s) ← loadScalar m.host (host.lookupCachedVariable m.ip name) (unknownMessage "Unknown identifier" name)
    return { m with host := s }.pushNext (Double.mul d d)
  | .loadParam name => do
    let (d, s) ← loadScalar m.host (host.lookupCachedParam m.ip name)
      (unknownMessage "Unknown parameter variable" name)
    return { m with host := s }.pushNext d
  | .loadParamSquare name => do
    let (d, s) ← loadScalar m.host (host.lookupCachedParam m.ip name)
      (unknownMessage "Unknown parameter variable" name)
    return { m with host := s }.pushNext (Double.mul d d)
  | .arith op => do
    let (a, b, m) ← m.pop2
    return m.pushNext (← fastArith op a b)
  | .cmp op => do
    let (a, b, m) ← m.pop2
    return m.pushNext (Double.ofBool (fastCmp op a b))
  | .square => do
    let (a, m) ← m.pop1
    return m.pushNext (Double.mul a a)
  | .not => do
    let (a, m) ← m.pop1
    return m.pushNext (Double.ofBool (Double.eq a Double.zero))
  | .intrinsic op => do
    let (a, m) ← m.pop1
    return m.pushNext (fastIntrinsic op a)
  | .clamp => do
    let (lo, hi, m) ← m.pop2
    let (a, m) ← m.pop1
    return m.pushNext (fastClamp a lo hi)
  | .callUnary _ _ _ | .callBinary _ _ _ | .callTernary _ _ _ =>
    match nativeCall instr with
    | none => runtimeError "Unsupported fast IR opcode"
    | some (func, payload, n, f) => do
      let (args, stack) ← popMany n m.stack
      let (v, s) ← fastNative host m.host func payload f args
      return { m with stack, host := s }.pushNext (← scalarOf "Memoized function result is not scalar" v)
  | .callFunc func payload n =>
    if func.typedFunc.isSome then runtimeError "Typed function requires typed execution path"
    else do
      let (args, stack) ← popMany n m.stack
      let (v, s) ← fastCallFunc host m.host func payload args
      return { m with stack, host := s }.pushNext (← scalarOf "Memoized function result is not scalar" v)
  | .callDefined func payload n => do
    -- unlike the other calls, this one has no memo here
    let (args, stack) ← popMany n m.stack
    let (v, s) ← runHost m.host (host.callDefinedScalar func payload (args.map .number))
    return { m with stack, host := s }.pushNext (← scalarOf "Defined function returned non-scalar" (← definedScalar v))
  | .jump target => .ok (.next { m with ip := target })
  | .jumpIfFalse target => do
    let (a, m) ← m.pop1
    return .next { m with ip := if Double.eq a Double.zero then target else m.ip + 1 }
  | .jumpIfTrue target => do
    let (a, m) ← m.pop1
    return .next { m with ip := if Double.ne a Double.zero then target else m.ip + 1 }
  | .storeLocal i => do
    if m.locals.length ≤ i then runtimeError "Unknown local variable"
    else
      let (a, m) ← m.pop1
      return .next { m with ip := m.ip + 1, locals := m.locals.set i a }
  | .ret =>
    match m.stack with
    | [a] => .ok (.halt a m.host)
    | _ => runtimeError "IR stack imbalance on return"
  | _ => runtimeError "Unsupported fast IR opcode"

/-- The dispatch loop of `cxpr_ir_exec_scalar_fast`. -/
def runScalarFast (program : Program D) (host : Host S D) :
    Nat → ScalarMachine S D → Option (Except Fault (D × S))
  | 0, _ => none
  | fuel + 1, m =>
    match program[m.ip]? with
    | none => some (.error .fellOffEnd)
    | some instr =>
      match scalarStep host m instr with
      | .error f => some (.error f)
      | .ok (.halt v s) => some (.ok (v, s))
      | .ok (.next m') => runScalarFast program host fuel m'

def execScalarFast (program : Program D) (host : Host S D) (locals : List D) (s : S) :
    Option (Except Fault (D × S)) :=
  runScalarFast program host (program.length + 1) { locals, host := s }

/-- `cxpr_ir_exec_bool_fast` between two instructions. -/
structure BoolMachine (S D : Type) where
  ip : Nat := 0
  nstack : List D := []
  bstack : List Bool := []
  host : S

inductive BoolStep (S D : Type) where
  | next (machine : BoolMachine S D)
  | halt (value : Bool) (host : S)

namespace BoolMachine

omit [Double D] in
def pushNumber (m : BoolMachine S D) (d : D) : BoolStep S D := .next { m with ip := m.ip + 1, nstack := d :: m.nstack }

omit [Double D] in
def pushBool (m : BoolMachine S D) (b : Bool) : BoolStep S D := .next { m with ip := m.ip + 1, bstack := b :: m.bstack }

omit [Double D] in
def pushValue (m : BoolMachine S D) (message : String) : Value D → Except Fault (BoolStep S D)
  | .number d => .ok (m.pushNumber d)
  | .bool b => .ok (m.pushBool b)
  | _ => runtimeError message

omit [Double D] in
def pop1 (m : BoolMachine S D) : Except Fault (D × BoolMachine S D) :=
  match m.nstack with
  | a :: rest => .ok (a, { m with nstack := rest })
  | [] => .error .stackUnderflow

omit [Double D] in
def pop2 (m : BoolMachine S D) : Except Fault (D × D × BoolMachine S D) :=
  match m.nstack with
  | b :: a :: rest => .ok (a, b, { m with nstack := rest })
  | _ => .error .stackUnderflow

omit [Double D] in
def popBool (m : BoolMachine S D) : Except Fault (Bool × BoolMachine S D) :=
  match m.bstack with
  | b :: rest => .ok (b, { m with bstack := rest })
  | [] => .error .stackUnderflow

end BoolMachine

/-- One instruction of `cxpr_ir_exec_bool_fast`. -/
def boolStep (host : Host S D) (locals : List D) (m : BoolMachine S D) (instr : Instr D) :
    Except Fault (BoolStep S D) :=
  match instr with
  | .pushConst v => .ok (m.pushNumber v)
  | .pushBool v => .ok (m.pushBool (Double.ne v Double.zero))
  | .loadLocal i =>
    match locals[i]? with
    | some d => .ok (m.pushNumber d)
    | none => runtimeError "Unknown local variable"
  | .loadLocalSquare i =>
    match locals[i]? with
    | some d => .ok (m.pushNumber (Double.mul d d))
    | none => runtimeError "Unknown local variable"
  | .loadVar name _ => do
    let (d, s) ← loadScalar m.host (host.lookupCachedVariable m.ip name) (unknownMessage "Unknown identifier" name)
    return { m with host := s }.pushNumber d
  | .loadVarSquare name => do
    let (d, s) ← loadScalar m.host (host.lookupCachedVariable m.ip name) (unknownMessage "Unknown identifier" name)
    return { m with host := s }.pushNumber (Double.mul d d)
  | .loadParam name => do
    let (d, s) ← loadScalar m.host (host.lookupCachedParam m.ip name)
      (unknownMessage "Unknown parameter variable" name)
    return { m with host := s }.pushNumber d
  | .loadParamSquare name => do
    let (d, s) ← loadScalar m.host (host.lookupCachedParam m.ip name)
      (unknownMessage "Unknown parameter variable" name)
    return { m with host := s }.pushNumber (Double.mul d d)
  | .arith op => do
    let (a, b, m) ← m.pop2
    return m.pushNumber (← fastArith op a b)
  | .cmp op => do
    let (a, b, m) ← m.pop2
    return m.pushBool (fastCmp op a b)
  | .square => do
    let (a, m) ← m.pop1
    return m.pushNumber (Double.mul a a)
  | .not => do
    let (b, m) ← m.popBool
    return m.pushBool !b
  | .intrinsic op => do
    let (a, m) ← m.pop1
    return m.pushNumber (fastIntrinsic op a)
  | .clamp => do
    let (lo, hi, m) ← m.pop2
    let (a, m) ← m.pop1
    return m.pushNumber (fastClamp a lo hi)
  | .callUnary _ _ _ | .callBinary _ _ _ | .callTernary _ _ _ =>
    match nativeCall instr with
    | none => runtimeError "Unsupported bool fast IR opcode"
    | some (func, payload, n, f) => do
      let (args, nstack) ← popMany n m.nstack
      let (v, s) ← fastNative host m.host func payload f args
      BoolMachine.pushValue { m with nstack, host := s } "Memoized function result is not scalar" v
  | .callFunc func payload n =>
    if func.typedFunc.isSome then runtimeError "Typed function requires typed execution path"
    else do
      let (args, nstack) ← popMany n m.nstack
      let (v, s) ← fastCallFunc host m.host func payload args
      BoolMachine.pushValue { m with nstack, host := s } "Memoized function result is not scalar" v
  | .callDefined func payload n => do
    let (memo, s) ← runHost m.host (host.memoGet func payload)
    let (args, nstack) ← popMany n m.nstack
    match memo with
    | some v =>
      BoolMachine.pushValue { m with nstack, host := s } "Memoized defined function returned non-scalar" v
    | none =>
      let (v, s) ← runHost s (host.callDefinedScalar func payload (args.map .number))
      let v ← definedScalar v
      let ((), s) ← runHost s (host.memoSet func payload v)
      BoolMachine.pushValue { m with nstack, host := s } "Defined function returned non-scalar" v
  | .jump target => .ok (.next { m with ip := target })
  | .jumpIfFalse target => do
    let (b, m) ← m.popBool
    return .next { m with ip := if b then m.ip + 1 else target }
  | .jumpIfTrue target => do
    let (b, m) ← m.popBool
    return .next { m with ip := if b then target else m.ip + 1 }
  | .ret =>
    match m.nstack, m.bstack with
    | [], [b] => .ok (.halt b m.host)
    | _, _ => runtimeError "IR stack imbalance on bool return"
  | _ => runtimeError "Unsupported bool fast IR opcode"

/-- The dispatch loop of `cxpr_ir_exec_bool_fast`. -/
def runBoolFast (program : Program D) (host : Host S D) (locals : List D) :
    Nat → BoolMachine S D → Option (Except Fault (Bool × S))
  | 0, _ => none
  | fuel + 1, m =>
    match program[m.ip]? with
    | none => some (.error .fellOffEnd)
    | some instr =>
      match boolStep host locals m instr with
      | .error f => some (.error f)
      | .ok (.halt v s) => some (.ok (v, s))
      | .ok (.next m') => runBoolFast program host locals fuel m'

def execBoolFast (program : Program D) (host : Host S D) (locals : List D) (s : S) :
    Option (Except Fault (Bool × S)) :=
  runBoolFast program host locals (program.length + 1) { host := s }

end Cxpr.Ir
