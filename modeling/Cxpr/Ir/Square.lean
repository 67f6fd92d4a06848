import Mathlib.Logic.Relation
import Cxpr.Ir.Api
import Cxpr.Ir.Simulation
import Cxpr.Ir.WellFormed

/-! Squares (`src/ir/compile/node.c`, `src/ir/exec/typed.c`, `src/ir/exec/lookup.c`). The compiler replaces the product
    of two equal nodes by `SQUARE`, or by a load that squares what it loads, and both take a double. The tree evaluator
    multiplies the same operand by the rules of `*`, which also has products of int64 values and of structs. A power
    with a constant exponent is never rewritten. -/

namespace Cxpr
namespace ValueOps
variable {D : Type}

/-! ### Values that have a product -/

def scalarsMultiply : Value D → Value D → Bool
  | .number _, .number _ | .duration _, .number _ | .number _, .duration _ => true
  | .int64 x, .int64 y =>
    !(x.toInt * y.toInt < Int64.minValue.toInt || Int64.maxValue.toInt < x.toInt * y.toInt)
  | _, _ => false

mutual

def scalarMultiplies (a : Value D) : Value D → Bool
  | .struct fields => isStructScalarOperand a && scalarMultipliesAll a fields
  | b => scalarsMultiply a b

def scalarMultipliesAll (a : Value D) : List (String × Value D) → Bool
  | [] => true
  | (_, v) :: rest => scalarMultiplies a v && scalarMultipliesAll a rest

end

mutual

/-- Two values have a product: numbers, int64 values whose product fits, a duration and a number, and structs whose
    fields have one. -/
def multiplies : Value D → Value D → Bool
  | .struct fields, b =>
    match b with
    | .struct right => fieldsMultiply fields right && right.length == fields.length
    | b => isStructScalarOperand b && allMultiply fields b
  | a, b => scalarMultiplies a b

def fieldsMultiply (left right : List (String × Value D)) : Bool :=
  match left with
  | [] => true
  | (name, v) :: rest =>
    match right.find? (·.1 == name) with
    | none => false
    | some (_, w) => multiplies v w && fieldsMultiply rest right

def allMultiply (left : List (String × Value D)) (b : Value D) : Bool :=
  match left with
  | [] => true
  | (_, v) :: rest => multiplies v b && allMultiply rest b

end

def SucceedsIff {α : Type} (r : Except Error α) (c : Bool) : Prop :=
  match r with
  | .ok _ => c = true
  | .error e => c = false ∧ e.code = .typeMismatch

theorem SucceedsIff.bind {α β : Type} {x : Except Error α} {f : α → Except Error β} {c d : Bool} (hx : SucceedsIff x c)
    (hf : ∀ a, SucceedsIff (f a) d) : SucceedsIff (x >>= f) (c && d) := by
  cases x with
  | error e =>
    obtain ⟨rfl, hcode⟩ := hx
    exact ⟨rfl, hcode⟩
  | ok a =>
    obtain rfl : c = true := hx
    exact hf a

theorem SucceedsIff.map {α β : Type} {x : Except Error α} {f : α → β} {c : Bool} (hx : SucceedsIff x c) :
    SucceedsIff (x.map f) c := by
  cases x with
  | error e => exact hx
  | ok a => exact hx

variable [Double D]

omit [Double D] in
theorem int64Checked_spec (exact : Int) (overflow : String) :
    SucceedsIff (fieldResult (int64Checked exact overflow : Handled D))
      !(exact < Int64.minValue.toInt || Int64.maxValue.toInt < exact) := by
  unfold int64Checked
  by_cases h : exact < Int64.minValue.toInt || Int64.maxValue.toInt < exact
  · rw [if_pos h, h]
    exact ⟨rfl, rfl⟩
  · rw [if_neg h, Bool.eq_false_iff.mpr h]
    rfl

theorem scalarsMultiply_spec (a b : Value D) :
    SucceedsIff (fieldResult (scalarBinaryOp .mul a b)) (scalarsMultiply a b) := by
  cases a with
  | int64 x =>
    cases b with
    | int64 y => exact int64Checked_spec _ _
    | _ => exact ⟨rfl, rfl⟩
  | _ =>
    cases b <;> first
      | rfl
      | exact ⟨rfl, rfl⟩

mutual

theorem scalarMultiplies_spec (a : Value D) : ∀ b : Value D,
    SucceedsIff (fieldResult (binaryOpScalarLeft .mul a b)) (scalarMultiplies a b)
  | .struct fields => by
    simp only [binaryOpScalarLeft, scalarMultiplies, isOrdering]
    cases hscalar : isStructScalarOperand a with
    | false => exact ⟨rfl, rfl⟩
    | true => exact (scalarMultipliesAll_spec a fields).map
  | .number _ | .bool _ | .string _ | .null | .timestamp _ | .duration _ | .array _ | .int64 _ =>
    scalarsMultiply_spec a _

theorem scalarMultipliesAll_spec (a : Value D) : ∀ fields : List (String × Value D),
    SucceedsIff (scalarLeftFields .mul a fields) (scalarMultipliesAll a fields)
  | [] => rfl
  | (name, v) :: rest => by
    refine (scalarMultiplies_spec a v).bind fun r => ?_
    exact (scalarMultipliesAll_spec a rest).map

end

mutual

theorem multiplies_spec : ∀ a b : Value D, SucceedsIff (fieldResult (binaryOpImpl .mul a b)) (multiplies a b)
  | .struct fields, .struct right => by
    refine (fieldsMultiply_spec fields right).bind fun values => ?_
    by_cases hlen : right.length = fields.length
    · simp [hlen, SucceedsIff]
    · simp [hlen, SucceedsIff]
  | .struct fields, .number _ | .struct fields, .int64 _ | .struct fields, .timestamp _
  | .struct fields, .duration _ => (allMultiply_spec fields _).map
  | .struct _, .bool _ | .struct _, .string _ | .struct _, .null | .struct _, .array _ => ⟨rfl, rfl⟩
  | .number _, b | .bool _, b | .string _, b | .null, b | .timestamp _, b | .duration _, b | .array _, b
  | .int64 _, b => scalarMultiplies_spec _ b

theorem fieldsMultiply_spec : ∀ left right : List (String × Value D),
    SucceedsIff (structFields .mul left right) (fieldsMultiply left right)
  | [], _ => rfl
  | (name, v) :: rest, right => by
    simp only [structFields, fieldsMultiply]
    cases right.find? (·.1 == name) with
    | none => exact ⟨rfl, rfl⟩
    | some field =>
      refine (multiplies_spec v field.2).bind fun r => ?_
      exact (fieldsMultiply_spec rest right).map

theorem allMultiply_spec : ∀ (left : List (String × Value D)) (b : Value D),
    SucceedsIff (scalarRightFields .mul left b) (allMultiply left b)
  | [], _ => rfl
  | (name, v) :: rest, b => by
    refine (multiplies_spec v b).bind fun r => ?_
    exact (allMultiply_spec rest b).map

end

theorem arithmeticOp_star_spec (v : Value D) : SucceedsIff (Eval.arithmeticOp .star v v) (multiplies v v) := by
  have hother : ∀ {handled : Handled D} {c : Bool} (message : String), SucceedsIff (fieldResult handled) c →
      SucceedsIff (Eval.handledOr handled message) c := by
    intro handled c message h
    cases handled with
    | none => exact ⟨h.1, rfl⟩
    | some r => exact h
  cases v with
  | number d => rfl
  | int64 x => exact hother _ (int64Checked_spec _ _)
  | struct fields => exact hother _ (multiplies_spec (.struct fields) (.struct fields))
  | _ => exact ⟨rfl, rfl⟩

end ValueOps

namespace Ir
open Eval ValueOps
variable {D : Type}

/-- What the compiler squares: a local, a variable, a parameter or a field, which one instruction loads and squares,
    or the value that the code of a node leaves on the stack. -/
inductive Factor (D : Type) where
  | slot (index : Nat)
  | var (name : String)
  | param (name : String)
  | field (name : String)
  | node (code : List (Instr D))

def Factor.square : Factor D → List (Instr D)
  | .slot i => [.loadLocalSquare i]
  | .var name => [.loadVarSquare name]
  | .param name => [.loadParamSquare name]
  | .field name => [.loadFieldSquare name]
  | .node code => code ++ [.square]

theorem emitLeafSquare_factor {localNames : List String} {subst : List (SubstFrame D)} {ast : Ast D} {instr : Instr D}
    (h : emitLeafSquare localNames subst ast = some instr) : ∃ factor : Factor D, factor.square = [instr] := by
  fun_induction emitLeafSquare localNames subst ast with
  | case1 name i hi =>
    cases h
    exact ⟨.slot i, rfl⟩
  | case2 name hi =>
    cases h
    exact ⟨.var name, rfl⟩
  | case3 _ _ _ _ _ ih | case4 _ _ _ _ ih => exact ih h
  | case5 _ name =>
    cases h
    exact ⟨.param name, rfl⟩
  | case6 _ object field =>
    cases h
    exact ⟨.field (Ast.fullKey [object, field]), rfl⟩
  | case7 => cases h

variable [Double D]

section
variable {reg : Registry D} {localNames : List String} {subst : List (SubstFrame D)} {levels : Nat} {l r : Ast D}

theorem compile_square {p p' : Program D} (heq : astEqual l r = true)
    (hfold : constantInstr (constantTypedValue (.binary .star l r) reg) = none)
    (h : compileNode reg localNames subst (compileIdentifier reg localNames (inlineBody reg localNames levels) subst)
      (inlineBody reg localNames levels) (.binary .star l r) p = .ok p') :
    ∃ factor : Factor D, p' = p ++ factor.square := by
  simp only [compileNode, folded, hfold, heq, Bool.and_true] at h
  cases hleaf : emitLeafSquare localNames subst l with
  | some instr =>
    obtain ⟨factor, hfactor⟩ := emitLeafSquare_factor hleaf
    rw [hleaf] at h
    cases h
    exact ⟨factor, by rw [hfactor]⟩
  | none =>
    rw [hleaf] at h
    have hinline := @adds_inlineBody D _ reg localNames levels
    have hl : Adds 1 (compileNode reg localNames subst
        (compileIdentifier reg localNames (inlineBody reg localNames levels) subst) (inlineBody reg localNames levels) l) :=
      adds_compileNode (adds_compileIdentifier hinline subst) hinline l
    obtain ⟨_, rfl, code, rfl, -⟩ := appends_unary hl p p' h
    exact ⟨.node code, rfl⟩

end

section
variable {S : Type} (program : Program D) (host : Host S D) (locals : List D)

def Forward (m m' : Machine S D) : Prop :=
  ∃ instr, program[m.ip]? = some instr ∧ step program host locals m instr = .ok (.next m') ∧ m.ip < m'.ip

/-- The executor leaves the code before `ip` with a value above the stack, or it fails in there with an error. -/
def Executes (m : Machine S D) (ip : Nat) (stack : List (Value D)) : Except ErrorCode (Value D) → Prop
  | .ok v => ∃ m', Relation.ReflTransGen (Forward program host locals) m m' ∧ m'.ip = ip ∧ m'.stack = v :: stack
  | .error code => ∃ m' instr f, Relation.ReflTransGen (Forward program host locals) m m' ∧ m'.ip < ip ∧
      program[m'.ip]? = some instr ∧ step program host locals m' instr = .error f ∧ f.error.code = code

variable {program host locals} {m m₁ : Machine S D} {ip : Nat} {stack : List (Value D)}

theorem forward_rightUnique : Relator.RightUnique (Forward program host locals) := by
  rintro m m₁ m₂ ⟨instr, hinstr, hstep, -⟩ ⟨instr', hinstr', hstep', -⟩
  obtain rfl := Option.some.inj (hinstr.symm.trans hinstr')
  exact Step.next.inj (Except.ok.inj (hstep.symm.trans hstep'))

theorem ip_le_of_runs (h : Relation.ReflTransGen (Forward program host locals) m m₁) : m.ip ≤ m₁.ip := by
  induction h with
  | refl => exact Nat.le_refl _
  | tail _ hstep ih =>
    obtain ⟨-, -, -, hlt⟩ := hstep
    exact Nat.le_trans ih (Nat.le_of_lt hlt)

theorem eq_of_runs (h : Relation.ReflTransGen (Forward program host locals) m m₁) (hip : m₁.ip ≤ m.ip) : m₁ = m := by
  rcases Relation.ReflTransGen.cases_head h with rfl | ⟨m', ⟨-, -, -, hlt⟩, hrest⟩
  · rfl
  · have hle := ip_le_of_runs hrest
    omega

theorem eq_of_runs_error {instr : Instr D} {f : Fault} (hinstr : program[m.ip]? = some instr)
    (hfault : step program host locals m instr = .error f)
    (h : Relation.ReflTransGen (Forward program host locals) m m₁) : m₁ = m := by
  rcases Relation.ReflTransGen.cases_head h with rfl | ⟨m', ⟨instr', hinstr', hstep, -⟩, -⟩
  · rfl
  · obtain rfl := Option.some.inj (hinstr.symm.trans hinstr')
    cases hfault.symm.trans hstep

theorem Executes.unique {x y : Except ErrorCode (Value D)} (hx : Executes program host locals m ip stack x)
    (hy : Executes program host locals m ip stack y) : x = y := by
  cases x with
  | ok v =>
    obtain ⟨a, ha, hip, hstack⟩ := hx
    cases y with
    | ok w =>
      obtain ⟨b, hb, hip', hstack'⟩ := hy
      have hab : a = b := by
        rcases Relation.ReflTransGen.total_of_right_unique forward_rightUnique ha hb with hrun | hrun
        · exact (eq_of_runs hrun (by omega)).symm
        · exact eq_of_runs hrun (by omega)
      rw [hab, hstack'] at hstack
      exact congrArg _ (List.cons.inj hstack).1.symm
    | error code =>
      obtain ⟨b, instr, f, hb, hlt, hinstr, hfault, -⟩ := hy
      rcases Relation.ReflTransGen.total_of_right_unique forward_rightUnique ha hb with hrun | hrun
      · have hle := ip_le_of_runs hrun
        omega
      · obtain rfl := eq_of_runs_error hinstr hfault hrun
        omega
  | error code =>
    obtain ⟨a, instr, f, ha, hlt, hinstr, hfault, hcode⟩ := hx
    cases y with
    | ok w =>
      obtain ⟨b, hb, hip, -⟩ := hy
      rcases Relation.ReflTransGen.total_of_right_unique forward_rightUnique ha hb with hrun | hrun
      · obtain rfl := eq_of_runs_error hinstr hfault hrun
        omega
      · have hle := ip_le_of_runs hrun
        omega
    | error code' =>
      obtain ⟨b, instr', f', hb, -, hinstr', hfault', hcode'⟩ := hy
      have hab : b = a := by
        rcases Relation.ReflTransGen.total_of_right_unique forward_rightUnique ha hb with hrun | hrun
        · exact eq_of_runs_error hinstr hfault hrun
        · exact (eq_of_runs_error hinstr' hfault' hrun).symm
      subst hab
      obtain rfl := Option.some.inj (hinstr.symm.trans hinstr')
      cases hfault.symm.trans hfault'
      rw [← hcode, hcode']

theorem Executes.of_runs {r : Except ErrorCode (Value D)} (h : Executes program host locals m₁ ip stack r)
    (hrun : Relation.ReflTransGen (Forward program host locals) m m₁) : Executes program host locals m ip stack r := by
  cases r with
  | ok v =>
    obtain ⟨m', hrest, hip, hstack⟩ := h
    exact ⟨m', hrun.trans hrest, hip, hstack⟩
  | error code =>
    obtain ⟨m', instr, f, hrest, hfault⟩ := h
    exact ⟨m', instr, f, hrun.trans hrest, hfault⟩

def faultCode (r : Except Fault (Value D)) : Except ErrorCode (Value D) := r.mapError (·.error.code)

theorem executes_push (m₁ : Machine S D) {instr : Instr D} {r : Except Fault (Value D)} (hinstr : program[m.ip]? = some instr)
    (hip : m₁.ip = m.ip) (hstack : m₁.stack = stack) (hroom : stack.length < stackCapacity)
    (hstep : step program host locals m instr = r >>= fun v => m₁.pushNext v) :
    Executes program host locals m (m.ip + 1) stack (faultCode r) := by
  cases r with
  | error f => exact ⟨m, instr, f, .refl, Nat.lt_succ_self _, hinstr, hstep, rfl⟩
  | ok v =>
    have hnext : step program host locals m instr = .ok (.next { m₁ with stack := v :: m₁.stack, ip := m₁.ip + 1 }) := by
      rw [hstep]
      show m₁.pushNext v = _
      rw [Machine.pushNext, Machine.push, if_neg (by rw [hstack]; omega)]
      rfl
    refine ⟨_, .single ⟨instr, hinstr, hnext, ?_⟩, ?_, ?_⟩
    · show m.ip < m₁.ip + 1
      omega
    · show m₁.ip + 1 = m.ip + 1
      rw [hip]
    · show v :: m₁.stack = v :: stack
      rw [hstack]

end

section
variable {reg : Registry D} {depth : Nat} {locals : List D} {program : Program D} {m : Machine (Context D) D}

/-- The operand is the value `v` when the executor comes to it. -/
def Factor.Holds (reg : Registry D) (depth : Nat) (locals : List D) (program : Program D) (m : Machine (Context D) D)
    (v : Value D) : Factor D → Prop
  | .slot i => ∃ d, locals[i]? = some d ∧ v = .number d
  | .var name => loadVariableTyped m.host name = some v
  | .param name => m.host.getParamTyped name = some v
  | .field name => ∃ ctx, (contextHost reg depth).loadFieldValue name m.host = .ok (v, ctx)
  | .node code => ∃ m', Relation.ReflTransGen (Forward program (contextHost reg depth) locals) m m' ∧
      m'.ip = m.ip + code.length ∧ m'.stack = v :: m.stack

/-- The square of an operand is its product with itself: it is a number, or it has no product. A parameter has to be
    among the number parameters too. -/
def Factor.Preserves (ctx : Context D) (v : Value D) : Factor D → Prop
  | .param name => ∃ d d', v = .number d ∧ ctx.getParam name = some d' ∧ Double.mul d' d' = Double.mul d d
  | _ => (∃ d, v = .number d) ∨ multiplies v v = false

def Factor.squared (ctx : Context D) (v : Value D) : Factor D → Except ErrorCode (Value D)
  | .param name =>
    match ctx.getParam name with
    | some d => .ok (.number (Double.mul d d))
    | none => .error .unknownIdentifier
  | _ => faultCode (execSquare v)

variable {v : Value D}

theorem executes_square (factor : Factor D) (hcode : CodeAt program m.ip factor.square)
    (hlookback : m.lookbackDepth = 0) (hroom : m.stack.length < stackCapacity)
    (hholds : factor.Holds reg depth locals program m v) :
    Executes program (contextHost reg depth) locals m (m.ip + factor.square.length) m.stack (factor.squared m.host v) := by
  cases factor with
  | slot i =>
    obtain ⟨d, hlocal, rfl⟩ := hholds
    refine executes_push m (codeAt_singleton hcode) rfl rfl hroom ?_
    simp only [step, hlocal]
    rfl
  | var name =>
    have hload : (contextHost reg depth).loadVariableTyped m.ip name m.host = .ok (some v, m.host) :=
      congrArg (fun v => Except.ok (v, m.host)) hholds
    refine executes_push m (codeAt_singleton hcode) rfl rfl hroom ?_
    simp only [step, loadValue, hlookback, Nat.lt_irrefl, if_false, run_found hload]
    rfl
  | param name =>
    have hload : (contextHost reg depth).lookupCachedParam m.ip name m.host = .ok (m.host.getParam name, m.host) := rfl
    simp only [Factor.squared]
    cases hparam : m.host.getParam name with
    | some d =>
      rw [hparam] at hload
      refine executes_push m (r := .ok _) (codeAt_singleton hcode) rfl rfl hroom ?_
      simp only [step, run_found hload]
      rfl
    | none =>
      rw [hparam] at hload
      refine executes_push m
        (r := .error (.raised ⟨.unknownIdentifier, Ir.unknownMessage "Unknown parameter variable" name⟩)) (codeAt_singleton hcode) rfl rfl hroom ?_
      simp only [step, run_found_none hload]
      rfl
  | field name =>
    obtain ⟨ctx, hfield⟩ := hholds
    have hload : Host.run m ((contextHost reg depth).loadFieldValue name) = .ok (v, { m with host := ctx }) := by
      unfold Host.run
      rw [hfield]
    refine executes_push { m with host := ctx } (codeAt_singleton hcode) rfl rfl hroom ?_
    simp only [step, loadValue, hlookback, Nat.lt_irrefl, if_false, hload]
    rfl
  | node code =>
    obtain ⟨m', hrun, hip, hstack⟩ := hholds
    have hinstr : program[m'.ip]? = some .square := by
      rw [hip]
      exact codeAt_singleton (codeAt_append hcode).2
    have hsquare : Executes program (contextHost reg depth) locals m' (m'.ip + 1) m.stack (faultCode (execSquare v)) := by
      refine executes_push { m' with stack := m.stack } hinstr rfl rfl hroom ?_
      simp only [step, Machine.pop1, hstack]
      rfl
    rw [hip] at hsquare
    simpa [Factor.square, Factor.squared, Nat.add_assoc] using hsquare.of_runs hrun

def evaluated (r : Except Error (Value D × Context D)) : Except ErrorCode (Value D) :=
  match r with
  | .ok (v, _) => .ok v
  | .error e => .error e.code

theorem evaluated_star {deeper : Ast D → EvalM D (Value D)} {l r : Ast D} {ctx ctx₁ ctx₂ : Context D}
    (hl : evalNode reg deeper l ctx = .ok (v, ctx₁)) (hr : evalNode reg deeper r ctx₁ = .ok (v, ctx₂)) :
    evaluated (evalNode reg deeper (.binary .star l r) ctx) = (arithmeticOp .star v v).mapError (·.code) := by
  have heval : evalNode reg deeper (.binary .star l r) ctx = (liftM (arithmeticOp .star v v) : EvalM D (Value D)) ctx₂ := by
    simp only [evalNode, evalBinary]
    rw [Stateful.bind_apply_ok hl]
    rw [Stateful.bind_apply_ok hr]
    rfl
  rw [heval]
  cases arithmeticOp .star v v with
  | ok w => rfl
  | error e => rfl

theorem number_of_product {d : D} (h : arithmeticOp .star v v = .ok (.number d)) : ∃ e, v = .number e := by
  cases v with
  | number e => exact ⟨e, rfl⟩
  | int64 x =>
    simp only [arithmeticOp, arithValOp, Option.bind_some, valueBinaryOp, int64BinaryOp, int64Checked] at h
    split at h
    · cases h
    · cases h
  | struct fields =>
    obtain ⟨values, -, hlen⟩ := bind_eq_ok.mp (show _ >>= _ = _ from h)
    split at hlen
    · cases hlen
    · cases hlen
  | _ => cases h

theorem execSquare_eq_iff : faultCode (execSquare v) = (arithmeticOp .star v v).mapError (·.code) ↔
    (∃ d, v = .number d) ∨ multiplies v v = false := by
  have hspec := arithmeticOp_star_spec v
  by_cases hnumber : ∃ d, v = .number d
  · obtain ⟨d, rfl⟩ := hnumber
    exact ⟨fun _ => .inl ⟨d, rfl⟩, fun _ => rfl⟩
  · have hmismatch : faultCode (execSquare v) = .error .typeMismatch := by
      cases v with
      | number d => exact absurd ⟨d, rfl⟩ hnumber
      | _ => rfl
    rw [hmismatch]
    cases hproduct : arithmeticOp .star v v with
    | ok w =>
      rw [hproduct] at hspec
      have htrue : multiplies v v = true := hspec
      simp [Except.mapError, hnumber, htrue]
    | error e =>
      rw [hproduct] at hspec
      obtain ⟨hfalse, hcode⟩ := hspec
      simp [Except.mapError, hfalse, hcode]

theorem Factor.squared_eq_iff (factor : Factor D) {ctx : Context D} :
    factor.squared ctx v = (arithmeticOp .star v v).mapError (·.code) ↔ factor.Preserves ctx v := by
  cases factor with
  | param name =>
    simp only [Factor.squared, Factor.Preserves]
    have hspec := arithmeticOp_star_spec v
    constructor
    · intro h
      cases hparam : ctx.getParam name with
      | none =>
        rw [hparam] at h
        cases hproduct : arithmeticOp .star v v with
        | ok w =>
          rw [hproduct] at h
          cases h
        | error e =>
          rw [hproduct] at h hspec
          have hcode : ErrorCode.unknownIdentifier = e.code := Except.error.inj h
          cases hcode.trans hspec.2
      | some d' =>
        rw [hparam] at h
        cases hproduct : arithmeticOp .star v v with
        | error e =>
          rw [hproduct] at h
          cases h
        | ok w =>
          rw [hproduct] at h
          obtain rfl := Except.ok.inj h
          obtain ⟨d, rfl⟩ := number_of_product hproduct
          exact ⟨d, d', rfl, rfl, (Value.number.inj (Except.ok.inj hproduct)).symm⟩
    · rintro ⟨d, d', rfl, hparam, hmul⟩
      rw [hparam]
      exact congrArg (fun x => Except.ok (Value.number x)) hmul
  | slot | var | field | node => exact execSquare_eq_iff

/-- The product of two equal nodes that is compiled to a square, outside a lookback and with the operand at `v` for both
    evaluators: the executor comes to what the tree evaluator makes of the product, value or error code, exactly if
    the operand is a number or has no product, and for a parameter if it is a number that the number parameters hold. -/
theorem square_agrees_iff {localNames : List String} {subst : List (SubstFrame D)} {levels : Nat} {l r : Ast D}
    {p p' : Program D} (heq : astEqual l r = true)
    (hfold : constantInstr (constantTypedValue (.binary .star l r) reg) = none)
    (h : compileNode reg localNames subst (compileIdentifier reg localNames (inlineBody reg localNames levels) subst)
      (inlineBody reg localNames levels) (.binary .star l r) p = .ok p') :
    ∃ factor : Factor D, p' = p ++ factor.square ∧
      ∀ (depth : Nat) (locals : List D) (program : Program D) (m : Machine (Context D) D)
        (deeper : Ast D → EvalM D (Value D)) (ctx ctx₁ ctx₂ : Context D) (v : Value D),
        m.ip = p.length → CodeAt program m.ip factor.square → m.lookbackDepth = 0 → m.stack.length < stackCapacity →
        factor.Holds reg depth locals program m v →
        evalNode reg deeper l ctx = .ok (v, ctx₁) → evalNode reg deeper r ctx₁ = .ok (v, ctx₂) →
        (Executes program (contextHost reg depth) locals m p'.length m.stack
            (evaluated (evalNode reg deeper (.binary .star l r) ctx)) ↔
          factor.Preserves m.host v) := by
  obtain ⟨factor, rfl⟩ := compile_square heq hfold h
  refine ⟨factor, rfl, ?_⟩
  intro depth locals program m deeper ctx ctx₁ ctx₂ v hip hcode hlookback hroom hholds hl hr
  have hsquare := executes_square factor hcode hlookback hroom hholds
  rw [List.length_append, ← hip, evaluated_star hl hr, ← factor.squared_eq_iff]
  constructor
  · exact fun hproduct => hsquare.unique hproduct
  · intro hproduct
    rw [← hproduct]
    exact hsquare

end

theorem square_agrees_number : Executes [.loadVarSquare "x", .ret] (contextHost ({} : Registry Int) 1) []
    { host := [{ vars := AList.singleton "x" 3 }] } 1 [] (.ok (.number 9)) := by
  have hnodes : astEqual (.identifier "x" : Ast Int) (.identifier "x") = true := rfl
  obtain ⟨factor, hcode, hagrees⟩ :=
    @square_agrees_iff Int _ {} [] [] 0 _ _ [] [.loadVarSquare "x"] hnodes rfl rfl
  obtain rfl : factor = .var "x" := by
    cases factor with
    | var name => cases hcode; rfl
    | node code =>
      obtain ⟨-, hlast⟩ := List.append_inj' (show [] ++ [Instr.loadVarSquare "x"] = code ++ [Instr.square] from hcode) rfl
      cases hlast
    | _ => cases hcode
  have hat : CodeAt [Instr.loadVarSquare "x", Instr.ret] 0 (Factor.var "x" : Factor Int).square := by
    intro i instr hi
    cases i with
    | zero => simpa [Factor.square] using hi
    | succ i => simp [Factor.square] at hi
  exact (hagrees 1 [] [.loadVarSquare "x", .ret] { host := [{ vars := AList.singleton "x" 3 }] }
    (evalDepth {} 0) [{ vars := AList.singleton "x" 3 }] _ _ (.number 3) rfl hat rfl (by decide) rfl rfl rfl).mpr
    (.inl ⟨3, rfl⟩)

/-- `x * x` with the int64 value `3`: the tree evaluator has `9`, the executor a type mismatch. -/
theorem int64_square_fails :
    compile (.binary .star (.identifier "x") (.identifier "x")) ({} : Registry Int) = .ok [.loadVarSquare "x", .ret] ∧
      (∃ ctx, evalAst ({} : Registry Int) 1 (.binary .star (.identifier "x") (.identifier "x"))
        [{ int64s := AList.singleton "x" 3 }] = .ok (.int64 9, ctx)) ∧
      execTyped [.loadVarSquare "x", .ret] (contextHost ({} : Registry Int) 1) [] [{ int64s := AList.singleton "x" 3 }] =
        some (.error (.raised ⟨.typeMismatch, "Square operation requires double operand"⟩)) := by
  refine ⟨rfl, ⟨_, rfl⟩, rfl⟩

end Ir
end Cxpr
