import Cxpr.Ir.Validate
import Cxpr.ValueOps

/-! The typed IR executor (`src/ir/exec/typed.c`). What it asks of the context, the registry and the tree evaluator is
    a `Host`; everything it decides itself (operand checks, types, jumps, the lookback stack, the fused producer and
    field pair) is here. -/

namespace Cxpr.Ir

/-- A computation of the host: it may change the host's state (memo table, cached structs) or fail. -/
abbrev Eff (S : Type) := StateT S (Except Error)

/-- The runtime calls of the executor. An `Option` result is the `found` flag; the `Nat` of a load is the instruction
    index, which selects its lookup cache. -/
structure Host (S D : Type) where
  loadVariableTyped : Nat → String → Eff S (Option (Value D))
  loadParam : Nat → String → Eff S (Option (Value D))
  lookupCachedParam : Nat → String → Eff S (Option D)
  lookupCachedVariable : Nat → String → Eff S (Option D)
  loadFieldValue : String → Eff S (Value D)
  loadNamedFieldValue : String → String → Eff S (Value D)
  loadChainValue : String → Eff S (Value D)
  resolveLookbackTarget : Ast D → Nat → Eff S (Value D)
  canResolveIndex : Bool
  lookbackResolve : Ast D → Nat → Eff S (Value D)
  memoGet : FuncEntry D → Ast D → Eff S (Option (Value D))
  memoSet : FuncEntry D → Ast D → Value D → Eff S Unit
  callTyped : FuncEntry D → List (Value D) → Eff S (Value D)
  callDefinedScalar : FuncEntry D → Ast D → List (Value D) → Eff S (Value D)
  callProducerCached : FuncEntry D → String → Option String → List (Value D) → Eff S (Value D)
  callProducerConstField : FuncEntry D → String → List D → String → Eff S (Value D)
  evalAst : Ast D → Eff S (Value D)

/-- What stops a run: one of the executor's own complaints about its stack and its end, or an error it reports about
    a value or passes on from the host. -/
inductive Fault where
  | stackUnderflow
  | stackNotEmpty
  | fellOffEnd
  | raised (error : Error)
  deriving DecidableEq, Repr

/-- The `cxpr_error` of a fault. -/
def Fault.error : Fault → Error
  | .stackUnderflow => ⟨.syntaxError, "IR stack underflow"⟩
  | .stackNotEmpty => ⟨.syntaxError, "IR stack not empty at return"⟩
  | .fellOffEnd => ⟨.syntaxError, "IR program fell off end without return"⟩
  | .raised e => e

/-- The executor between two instructions; the top of the operand stack is its head. -/
structure Machine (S D : Type) where
  ip : Nat := 0
  stack : List (Value D) := []
  lookbackStack : List Nat := []
  lookbackOffset : Nat := 0
  lookbackDepth : Nat := 0
  host : S

inductive Step (S D : Type) where
  | next (machine : Machine S D)
  | halt (value : Value D) (host : S)

section
variable {S D : Type}

def runtimeError {α : Type} (message : String) : Except Fault α := .error (.raised ⟨.syntaxError, message⟩)

def makeNotFound {α : Type} (message : String) : Except Fault α := .error (.raised ⟨.unknownIdentifier, message⟩)

/-- `cxpr_ir_require_type`. -/
def mismatch {α : Type} (message : String) : Except Fault α := .error (.raised ⟨.typeMismatch, message⟩)

def unknownMessage (kind name : String) : String := if name == "" then kind else kind ++ " '" ++ name ++ "'"

def Host.run {α : Type} (m : Machine S D) (eff : Eff S α) : Except Fault (α × Machine S D) :=
  match eff m.host with
  | .error e => .error (.raised e)
  | .ok (a, host) => .ok (a, { m with host })

namespace Machine

def push (m : Machine S D) (v : Value D) : Except Fault (Machine S D) :=
  if stackCapacity ≤ m.stack.length then runtimeError "IR stack overflow"
  else .ok { m with stack := v :: m.stack }

def pushNext (m : Machine S D) (v : Value D) : Except Fault (Step S D) := do
  let m ← m.push v
  return .next { m with ip := m.ip + 1 }

def pop1 (m : Machine S D) : Except Fault (Value D × Machine S D) :=
  match m.stack with
  | v :: rest => .ok (v, { m with stack := rest })
  | [] => .error .stackUnderflow

/-- `cxpr_ir_pop2`: the left and the right operand. -/
def pop2 (m : Machine S D) : Except Fault (Value D × Value D × Machine S D) :=
  match m.stack with
  | right :: left :: rest => .ok (left, right, { m with stack := rest })
  | _ => .error .stackUnderflow

/-- `cxpr_ir_require_stack`. -/
def popArgs (m : Machine S D) (n : Nat) : Except Fault (List (Value D) × Machine S D) :=
  if m.stack.length < n then .error .stackUnderflow
  else .ok ((m.stack.take n).reverse, { m with stack := m.stack.drop n })

end Machine

/-- The field of a produced struct (`cxpr_ir_call_producer_field_cached` after the call). -/
def producedField (produced : Value D) (field : String) : Except Fault (Value D) :=
  match produced with
  | .struct fields =>
    match structGetField fields field with
    | some v => .ok v
    | none => makeNotFound "Unknown field access"
  | _ => runtimeError "Field access requires struct operand"

/-- The node `cxpr_ir_resolve_lookback_instr` resolves: the payload of the load, or one rebuilt from its name. -/
def lookbackTarget : Instr D → Option (Ast D)
  | .loadVar _ (some ast) | .loadField _ (some ast) | .loadChain _ ast => some ast
  | .loadVar name none | .loadVarSquare name => some (.identifier name)
  | .loadNamedField name aux => some (.fieldAccess name aux)
  | .loadField name none | .loadFieldSquare name =>
    if 256 ≤ name.utf8ByteSize then none
    else
      match name.splitOn "." with
      | object :: field :: rest =>
        if object == "" || (field == "" && rest.isEmpty) then none
        else some (.fieldAccess object (Ast.fullKey (field :: rest)))
      | _ => none
  | _ => none

def loadValue (host : Host S D) (m : Machine S D) (instr : Instr D) (direct : Eff S (Value D)) :
    Except Fault (Value D × Machine S D) :=
  if 0 < m.lookbackDepth then
    match lookbackTarget instr with
    | some target => Host.run m (host.resolveLookbackTarget target m.lookbackOffset)
    | none => runtimeError "Lookback resolver failed"
  else Host.run m direct

def found {α : Type} (eff : Eff S (Option α)) (message : String) : Eff S α := do
  match ← eff with
  | some v => return v
  | none => throw ⟨.unknownIdentifier, message⟩

end

section
variable {S D : Type} [Double D]

/-! ### Operators -/

/-- The `cxpr_valop` of an arithmetic opcode; `MOD` and `POW` have none. -/
def Arith.valOp : Arith → Option ValOp
  | .add => some .add
  | .sub => some .sub
  | .mul => some .mul
  | .div => some .div
  | .mod | .pow => none

def execArith (op : Arith) (a b : Value D) : Except Fault (Value D) :=
  match a, b with
  | .number x, .number y =>
    match op with
    | .add => .ok (.number (Double.add x y))
    | .sub => .ok (.number (Double.sub x y))
    | .mul => .ok (.number (Double.mul x y))
    | .div =>
      if Double.eq y Double.zero then .error (.raised ⟨.divisionByZero, "Division by zero"⟩)
      else .ok (.number (Double.div x y))
    | .mod =>
      if Double.eq y Double.zero then .error (.raised ⟨.divisionByZero, "Modulo by zero"⟩)
      else .ok (.number (Double.fmod x y))
    | .pow => .ok (.number (Double.pow x y))
  | a, b =>
    match op.valOp.bind (valueBinaryOp · a b) with
    | some (.ok v) => .ok v
    | some (.error e) => .error (.raised e)
    | none => mismatch "Arithmetic requires double operands"

/-- `CMP_EQ` on two values of the same scalar type; `none` when the types do not match. -/
def scalarEqual : Value D → Value D → Option Bool
  | .number x, .number y => some (Double.eq x y)
  | .bool x, .bool y => some (x == y)
  | .string x, .string y => some (x == y)
  | .null, .null => some true
  | .timestamp x, .timestamp y | .duration x, .duration y | .int64 x, .int64 y => some (x == y)
  | _, _ => none

/-- The `cxpr_valop` of an ordering opcode. -/
def Cmp.valOp : Cmp → ValOp
  | .lt => .lt
  | .lte => .lte
  | .gt => .gt
  | .gte | .eq | .neq => .gte

def execCmp (op : Cmp) (a b : Value D) : Except Fault (Value D) :=
  match op with
  | .eq | .neq =>
    match scalarEqual a b with
    | some r => .ok (.bool (if op = .eq then r else !r))
    | none => mismatch "Equality requires matching scalar operands"
  | .lt | .lte | .gt | .gte =>
    match a, b with
    | .number x, .number y =>
      match op with
      | .lt => .ok (.bool (Double.lt x y))
      | .lte => .ok (.bool (Double.le x y))
      | .gt => .ok (.bool (Double.gt x y))
      | _ => .ok (.bool (Double.ge x y))
    | a, b =>
      match valueBinaryOp op.valOp a b with
      | some (.ok v) => .ok v
      | some (.error e) => .error (.raised e)
      | none => mismatch "Comparison requires double operands"

/-- `(a > 0.0) - (a < 0.0)`. -/
def sign (a : D) : D :=
  Double.sub (Double.ofBool (Double.gt a Double.zero)) (Double.ofBool (Double.lt a Double.zero))

def execIntrinsic (op : Intrinsic) (a : Value D) : Except Fault (Value D) :=
  match op, a with
  | .neg, .int64 i =>
    if i = Int64.minValue then runtimeError "int64 negation overflow" else .ok (.int64 (-i))
  | op, .number d =>
    .ok <| .number <| match op with
      | .neg => Double.neg d
      | .sign => sign d
      | .sqrt => Double.sqrt d
      | .abs => Double.fabs d
      | .floor => Double.floor d
      | .ceil => Double.ceil d
      | .round => Double.round d
  | _, _ => mismatch "Numeric intrinsic requires double operand"

/-- `SQUARE` and `cxpr_ir_push_squared`. -/
def execSquare : Value D → Except Fault (Value D)
  | .number d => .ok (.number (Double.mul d d))
  | _ => mismatch "Square operation requires double operand"

def execClamp (a lo hi : Value D) : Except Fault (Value D) :=
  match a, lo, hi with
  | .number x, .number l, .number h =>
    let x := if Double.lt x l then l else x
    .ok (.number (if Double.gt x h then h else x))
  | _, _, _ => mismatch "clamp() requires double operands"

/-- `INDEX` on an array and an index value. -/
def execIndex (a b : Value D) : Except Fault (Value D) :=
  match a with
  | .array values =>
    match constantIndex (some b) with
    | none => .error (.raised ⟨.invalidIndex, "Array index must be a finite non-negative integer"⟩)
    | some i =>
      match values[i]? with
      | some v => .ok v
      | none => .error (.raised ⟨.indexOutOfRange, "Array index is out of range"⟩)
  | _ => mismatch "Index target is not an array"

omit [Double D] in
def execNative (host : Host S D) (m : Machine S D) (func : FuncEntry D) (payload : Ast D)
    (args : List (Value D)) (f : List D → D) : Except Fault (Step S D) :=
  match args.mapM (fun v => match v with | .number d => some d | _ => none) with
  | none => mismatch "Function arguments must be doubles"
  | some ds => do
    let (memo, m) ← Host.run m (host.memoGet func payload)
    match memo with
    | some v => m.pushNext v
    | none =>
      let ((), m) ← Host.run m (host.memoSet func payload (.number (f ds)))
      m.pushNext (.number (f ds))

/-- The body of the executor's loop on the instruction at `ip`. -/
def step (program : Program D) (host : Host S D) (locals : List D) (m : Machine S D) (instr : Instr D) :
    Except Fault (Step S D) :=
  match instr with
  | .pushConst v => m.pushNext (.number v)
  | .pushInt64 v => m.pushNext (.int64 v)
  | .pushBool v => m.pushNext (.bool (Double.ne v Double.zero))
  | .pushString s => m.pushNext (.string s)
  | .buildArray n => do
    let (args, m) ← m.popArgs n
    m.pushNext (.array args)
  | .index => do
    let (a, b, m) ← m.pop2
    m.pushNext (← execIndex a b)
  | .loadLocal i =>
    match locals[i]? with
    | some d => m.pushNext (.number d)
    | none => runtimeError "Unknown local variable"
  | .loadLocalSquare i =>
    match locals[i]? with
    | some d => m.pushNext (.number (Double.mul d d))
    | none => runtimeError "Unknown local variable"
  | .loadVar name _ => do
    let (v, m) ← loadValue host m instr
      (found (host.loadVariableTyped m.ip name) (unknownMessage "Unknown identifier" name))
    m.pushNext v
  | .loadVarSquare name => do
    let (v, m) ← loadValue host m instr
      (found (host.loadVariableTyped m.ip name) (unknownMessage "Unknown identifier" name))
    m.pushNext (← execSquare v)
  | .loadParam name => do
    let (v, m) ← Host.run m
      (found (host.loadParam m.ip name) (unknownMessage "Unknown parameter variable" name))
    m.pushNext v
  | .loadParamSquare name => do
    let (d, m) ← Host.run m
      (found (host.lookupCachedParam m.ip name) (unknownMessage "Unknown parameter variable" name))
    m.pushNext (.number (Double.mul d d))
  | .loadField name _ => do
    let (v, m) ← loadValue host m instr (host.loadFieldValue name)
    m.pushNext v
  | .loadFieldSquare name => do
    let (v, m) ← loadValue host m instr (host.loadFieldValue name)
    m.pushNext (← execSquare v)
  | .loadNamedField name aux => do
    let (v, m) ← loadValue host m instr (host.loadNamedFieldValue name aux)
    m.pushNext v
  | .loadChain name _ => do
    let (v, m) ← loadValue host m instr (host.loadChainValue name)
    m.pushNext v
  | .arith op => do
    let (a, b, m) ← m.pop2
    m.pushNext (← execArith op a b)
  | .cmp op => do
    let (a, b, m) ← m.pop2
    m.pushNext (← execCmp op a b)
  | .square => do
    let (a, m) ← m.pop1
    m.pushNext (← execSquare a)
  | .not => do
    let (a, m) ← m.pop1
    match a with
    | .bool b => m.pushNext (.bool !b)
    | _ => mismatch "Logical not requires bool operand"
  | .intrinsic op => do
    let (a, m) ← m.pop1
    m.pushNext (← execIntrinsic op a)
  | .clamp => do
    let (lo, hi, m) ← m.pop2
    let (a, m) ← m.pop1
    m.pushNext (← execClamp a lo hi)
  | .callUnary func f payload => do
    let (a, m) ← m.pop1
    execNative host m func payload [a] fun ds => match ds with | [x] => f x | _ => Double.zero
  | .callBinary func f payload => do
    let (a, b, m) ← m.pop2
    execNative host m func payload [a, b] fun ds => match ds with | [x, y] => f x y | _ => Double.zero
  | .callTernary func f payload => do
    let (b, c, m) ← m.pop2
    let (a, m) ← m.pop1
    execNative host m func payload [a, b, c] fun ds => match ds with | [x, y, z] => f x y z | _ => Double.zero
  | .callFunc func payload n => do
    let (args, m) ← m.popArgs n
    if maxCallArgs < n then runtimeError "Too many function arguments"
    else
      let (memo, m) ← Host.run m (host.memoGet func payload)
      match memo with
      | some v => m.pushNext v
      | none =>
        let (v, m) ← Host.run m (host.callTyped func args)
        let ((), m) ← Host.run m (host.memoSet func payload v)
        m.pushNext v
  | .callDefined func payload n => do
    let (args, m) ← m.popArgs n
    let (memo, m) ← Host.run m (host.memoGet func payload)
    match memo with
    | some v => m.pushNext v
    | none =>
      let (v, m) ← Host.run m (host.callDefinedScalar func payload args)
      let ((), m) ← Host.run m (host.memoSet func payload v)
      m.pushNext v
  | .callProducer func name n => do
    let (args, m) ← m.popArgs n
    let (produced, m) ← Host.run m (host.callProducerCached func name none args)
    match program[m.ip + 1]? with
    | some (.getField field) => Machine.pushNext { m with ip := m.ip + 1 } (← producedField produced field)
    | _ => m.pushNext produced
  | .callProducerConst func key n => do
    let (args, m) ← m.popArgs n
    let (produced, m) ← Host.run m (host.callProducerCached func func.name (some key) args)
    match program[m.ip + 1]? with
    | some (.getField field) => Machine.pushNext { m with ip := m.ip + 1 } (← producedField produced field)
    | _ => m.pushNext produced
  | .callProducerConstField func key field args => do
    let (v, m) ← Host.run m (host.callProducerConstField func key args field)
    m.pushNext v
  | .getField field => do
    let (a, m) ← m.pop1
    match a with
    | .struct fields =>
      match structGetField fields field with
      | some v => m.pushNext v
      | none => makeNotFound "Unknown field access"
    | _ => mismatch "Field access requires struct operand"
  | .callAst ast => do
    let (v, m) ← Host.run m
      (if 0 < m.lookbackDepth then host.resolveLookbackTarget ast m.lookbackOffset else host.evalAst ast)
    m.pushNext v
  | .jump target => .ok (.next { m with ip := target })
  | .jumpIfFalse target => do
    let (a, m) ← m.pop1
    match a with
    | .bool b => return .next { m with ip := if b then m.ip + 1 else target }
    | _ => mismatch "Conditional jump requires bool operand"
  | .jumpIfTrue target => do
    let (a, m) ← m.pop1
    match a with
    | .bool b => return .next { m with ip := if b then target else m.ip + 1 }
    | _ => mismatch "Conditional jump requires bool operand"
  | .lookbackPush offset =>
    if stackCapacity ≤ m.lookbackStack.length then runtimeError "Lookback offset stack overflow"
    else if sizeMax - m.lookbackOffset < offset then runtimeError "Lookback offset overflow"
    else .ok <| .next { m with
      ip := m.ip + 1
      lookbackStack := m.lookbackOffset :: m.lookbackStack
      lookbackOffset := m.lookbackOffset + offset
      lookbackDepth := m.lookbackDepth + 1 }
  | .lookbackPop =>
    match m.lookbackStack with
    | [] => runtimeError "Lookback offset stack underflow"
    | offset :: rest =>
      if m.lookbackDepth = 0 then runtimeError "Lookback depth underflow"
      else .ok <| .next { m with
        ip := m.ip + 1
        lookbackStack := rest
        lookbackOffset := offset
        lookbackDepth := m.lookbackDepth - 1 }
  | .lookbackResolve target offset =>
    if !host.canResolveIndex then runtimeError "Index requires registry capability or lookback resolver"
    else if sizeMax - m.lookbackOffset < offset then runtimeError "Lookback offset overflow"
    else do
      let (v, m) ← Host.run m (host.lookbackResolve target (m.lookbackOffset + offset))
      m.pushNext v
  | .storeLocal _ => runtimeError "STORE_LOCAL requires scalar fast execution"
  | .ret => do
    let (v, m) ← m.pop1
    if m.stack.isEmpty then return .halt v m.host else .error .stackNotEmpty

def runTyped (program : Program D) (host : Host S D) (locals : List D) :
    Nat → Machine S D → Option (Except Fault (Value D × S))
  | 0, _ => none
  | fuel + 1, m =>
    match program[m.ip]? with
    | none => some (.error .fellOffEnd)
    | some instr =>
      match step program host locals m instr with
      | .error f => some (.error f)
      | .ok (.halt v s) => some (.ok (v, s))
      | .ok (.next m') => runTyped program host locals fuel m'

/-- `cxpr_ir_exec_typed`. Jumps only go forward in compiled programs, so one round for each instruction and one to
    leave the loop are enough. -/
def execTyped (program : Program D) (host : Host S D) (locals : List D) (s : S) :
    Option (Except Fault (Value D × S)) :=
  if program.isEmpty then some (runtimeError "Empty IR program")
  else runTyped program host locals (program.length + 1) { host := s }

end
end Cxpr.Ir
