import Cxpr.Ir.Meaning
import Cxpr.Ir.Shape
import Cxpr.Ir.Typed

/-! The typed executor on the code of an expression of the operator fragment: it pushes the compiled meaning of the
    expression, or it fails because there is none or because the stack is full. -/

namespace Cxpr.Ir
open Eval
variable {S D : Type} [Double D]

def stackedDepth : List Nat → Nat
  | [] => 0
  | d :: ds => max d (stackedDepth ds + 1)

mutual

def operandDepth : Ast D → Nat
  | .unary _ a => operandDepth a
  | .binary .and l r | .binary .or l r => max (operandDepth l) (operandDepth r)
  | .binary _ l r => max (operandDepth l) (operandDepth r + 1)
  | .ternary c t e => max (operandDepth c) (max (operandDepth t) (operandDepth e))
  | .call _ args _ => (operandDepths args).foldr max 1
  | .array es => max 1 (stackedDepth (operandDepths es))
  | .index t i => max (operandDepth t) (operandDepth i + 1)
  | _ => 1

def operandDepths : List (Ast D) → List Nat
  | [] => []
  | a :: as => operandDepth a :: operandDepths as

end

variable {op : BinaryOp}

omit [Double D] in
theorem operandDepth_binary (hand : op ≠ .and) (hor : op ≠ .or) (l r : Ast D) :
    operandDepth (.binary op l r) = max (operandDepth l) (operandDepth r + 1) := by
  cases op <;> first
    | exact absurd rfl hand
    | exact absurd rfl hor
    | rfl

theorem one_le_operandDepth {reg : Registry D} {indexed : Bool} {ast : Ast D} (h : Scalar reg indexed ast) :
    1 ≤ operandDepth ast := by
  induction h with
  | unary op ha iha => exact iha
  | binary op hl hr ihl ihr => cases op <;> simp only [operandDepth] <;> omega
  | ternary | index | array =>
    simp only [operandDepth]
    omega
  | ifCall =>
    simp only [operandDepth, operandDepths, List.foldr]
    omega
  | _ => exact Nat.le_refl 1

def CodeAt (program : Program D) (b : Nat) (code : List (Instr D)) : Prop :=
  ∀ i instr, code[i]? = some instr → program[b + i]? = some instr

omit [Double D] in
theorem codeAt_append {program : Program D} {b : Nat} {c₁ c₂ : List (Instr D)} (h : CodeAt program b (c₁ ++ c₂)) :
    CodeAt program b c₁ ∧ CodeAt program (b + c₁.length) c₂ := by
  refine ⟨fun i instr hi => h i instr ?_, fun i instr hi => ?_⟩
  · rw [List.getElem?_append_left (List.getElem?_eq_some_iff.mp hi).1]
    exact hi
  · rw [Nat.add_assoc]
    refine h (c₁.length + i) instr ?_
    rw [List.getElem?_append_right (Nat.le_add_right _ _), Nat.add_sub_cancel_left]
    exact hi

omit [Double D] in
theorem codeAt_singleton {program : Program D} {b : Nat} {instr : Instr D} (h : CodeAt program b [instr]) :
    program[b]? = some instr := h 0 instr rfl

section
variable (program : Program D) (host : Host S D)

inductive Reaches : Machine S D → Machine S D → Prop
  | refl (m : Machine S D) : Reaches m m
  | step {m m₁ m₂ : Machine S D} {instr : Instr D} (hinstr : program[m.ip]? = some instr)
      (hstep : step program host [] m instr = .ok (.next m₁)) (hlt : m.ip < m₁.ip) (h : Reaches m₁ m₂) : Reaches m m₂

def Faults (m : Machine S D) : Prop :=
  ∃ m₁ instr f, Reaches program host m m₁ ∧ program[m₁.ip]? = some instr ∧ step program host [] m₁ instr = .error f

variable {program host}

variable {m m₁ : Machine S D}

theorem Reaches.trans {m₂ : Machine S D} (h : Reaches program host m m₁) (h' : Reaches program host m₁ m₂) :
    Reaches program host m m₂ := by
  induction h with
  | refl => exact h'
  | step hinstr hstep hlt _ ih => exact .step hinstr hstep hlt (ih h')

theorem Reaches.faults (h : Reaches program host m m₁) (h' : Faults program host m₁) :
    Faults program host m := by
  obtain ⟨m₂, instr, f, hreach, hinstr, hstep⟩ := h'
  exact ⟨m₂, instr, f, h.trans hreach, hinstr, hstep⟩

theorem Reaches.ip_le (h : Reaches program host m m₁) : m.ip ≤ m₁.ip := by
  induction h with
  | refl => exact Nat.le_refl _
  | step hinstr hstep hlt _ ih => exact Nat.le_trans (Nat.le_of_lt hlt) ih

theorem Reaches.runTyped (h : Reaches program host m m₁) {n fuel : Nat}
    (hfuel : n + (m₁.ip - m.ip) ≤ fuel) :
    ∃ fuel', n ≤ fuel' ∧ Ir.runTyped program host [] fuel m = Ir.runTyped program host [] fuel' m₁ := by
  induction h generalizing fuel with
  | refl m => exact ⟨fuel, by omega, rfl⟩
  | step hinstr hstep hlt h ih =>
    have hip := h.ip_le
    obtain ⟨k, rfl⟩ : ∃ k, fuel = k + 1 := ⟨fuel - 1, by omega⟩
    obtain ⟨fuel', hle, hrun⟩ := @ih k (by omega)
    refine ⟨fuel', hle, ?_⟩
    simp only [Ir.runTyped, hinstr, hstep]
    exact hrun

end

/-- Where the machine stands between two instructions; `H` are the states that the host goes through. -/
structure At (H : Set S) (ip : Nat) (stack : List (Value D)) (m : Machine S D) : Prop where
  ip : m.ip = ip
  stack : m.stack = stack
  lookback : m.lookbackDepth = 0
  host : m.host ∈ H

section
variable (program : Program D) (host : Host S D) (H : Set S)

/-- The machine arrives at `ip` with the result on the stack, or it faults: there is no result, or the stack has
    less than `need` free places. -/
def Ends (m : Machine S D) (ip : Nat) (stack : List (Value D)) (r : Option (Value D)) (spills : Prop) : Prop :=
  (Faults program host m ∧ (r = none ∨ spills)) ∨
  ∃ v m', r = some v ∧ Reaches program host m m' ∧ At H ip (v :: stack) m'

variable {program host H} {m m₁ : Machine S D} {ip ip' : Nat} {stack stack' : List (Value D)} {r : Option (Value D)}
  {v : Value D} {spills spills' : Prop} {instr : Instr D}

theorem Ends.done (h : At H ip (v :: stack) m) : Ends program host H m ip stack (some v) spills :=
  .inr ⟨v, m, rfl, .refl m, h⟩

theorem Ends.fault {f : Fault} (hinstr : program[m.ip]? = some instr)
    (hstep : Ir.step program host [] m instr = .error f) (hr : r = none ∨ spills) :
    Ends program host H m ip stack r spills :=
  .inl ⟨⟨m, instr, f, .refl m, hinstr, hstep⟩, hr⟩

theorem Ends.step (hinstr : program[m.ip]? = some instr) (hstep : Ir.step program host [] m instr = .ok (.next m₁))
    (hlt : m.ip < m₁.ip) (h : Ends program host H m₁ ip stack r spills) : Ends program host H m ip stack r spills := by
  have hreach : Reaches program host m m₁ := .step hinstr hstep hlt (.refl m₁)
  rcases h with ⟨hfault, hr⟩ | ⟨v, m', hr, hm', hat⟩
  · exact .inl ⟨hreach.faults hfault, hr⟩
  · exact .inr ⟨v, m', hr, hreach.trans hm', hat⟩

theorem Ends.bind {k : Value D → Option (Value D)} (h : Ends program host H m ip stack r spills)
    (hk : ∀ v m₁, r = some v → At H ip (v :: stack) m₁ → Ends program host H m₁ ip' stack' (k v) spills) :
    Ends program host H m ip' stack' (r.bind k) spills := by
  rcases h with ⟨hfault, hr⟩ | ⟨v, m', rfl, hm', hat⟩
  · refine .inl ⟨hfault, hr.imp_left ?_⟩
    rintro rfl
    rfl
  · rcases hk v m' rfl hat with ⟨hfault, hr⟩ | ⟨w, m₂, hr, hm₂, hat₂⟩
    · exact .inl ⟨hm'.faults hfault, hr⟩
    · exact .inr ⟨w, m₂, hr, hm'.trans hm₂, hat₂⟩

theorem Ends.mono (h : Ends program host H m ip stack r spills) (hover : spills → spills') :
    Ends program host H m ip stack r spills' :=
  h.imp_left fun ⟨hfault, hr⟩ => ⟨hfault, hr.imp_right hover⟩

theorem Ends.push {r' : Except Fault (Value D)} (hinstr : program[m.ip]? = some instr) (hat : At H ip stack m₁)
    (hip : m.ip = ip) (hr : r'.toOption = r)
    (hstep : Ir.step program host [] m instr = r' >>= fun v => m₁.pushNext v)
    (hover : stackCapacity ≤ stack.length → spills) : Ends program host H m (ip + 1) stack r spills := by
  cases r' with
  | error f => exact .fault hinstr hstep (.inl hr.symm)
  | ok v =>
    subst hr
    have hpush : Ir.step program host [] m instr = m₁.pushNext v := hstep
    by_cases hfull : stackCapacity ≤ stack.length
    · have hoverflow : Ir.step program host [] m instr = runtimeError "IR stack overflow" := by
        rw [hpush, Machine.pushNext, Machine.push, hat.stack, if_pos hfull]
        rfl
      exact .fault hinstr hoverflow (.inr (hover hfull))
    · have hnext : Ir.step program host [] m instr =
          .ok (.next { m₁ with stack := v :: m₁.stack, ip := m₁.ip + 1 }) := by
        rw [hpush, Machine.pushNext, Machine.push, hat.stack, if_neg hfull]
        rfl
      refine .step hinstr hnext ?_ (.done ⟨?_, ?_, hat.lookback, hat.host⟩)
      · show m.ip < m₁.ip + 1
        rw [hat.ip, hip]
        exact Nat.lt_succ_self ip
      · show m₁.ip + 1 = ip + 1
        rw [hat.ip]
      · show v :: m₁.stack = v :: stack
        rw [hat.stack]

end
/-! ### Operators -/

def raisedOr (handled : Option (Except Error (Value D))) (message : String) : Except Fault (Value D) :=
  match handled with
  | some (.ok v) => .ok v
  | some (.error e) => .error (.raised e)
  | none => mismatch message

omit [Double D] in
theorem toOption_raisedOr (handled : Option (Except Error (Value D))) (message : String) :
    (raisedOr handled message).toOption = (handledOr handled message).toOption := by
  cases handled with
  | none => rfl
  | some r => cases r <;> rfl

theorem toOption_execArith {a : Arith} (h : binaryInstr op = some (.arith a : Instr D)) (x y : Value D) :
    (execArith a x y).toOption = (binaryValues op x y).toOption := by
  cases op <;> cases h
  all_goals
    cases x with
    | number d =>
      cases y with
      | number e =>
        first
          | rfl
          | simp only [execArith, binaryValues, arithmeticOp]
            split <;> rfl
      | _ => first | rfl | exact toOption_raisedOr _ _
    | _ => first | rfl | exact toOption_raisedOr _ _

theorem scalarEqual_eq_valuesEqual (x y : Value D) : scalarEqual x y = valuesEqual x y := by
  unfold scalarEqual valuesEqual
  rfl

theorem toOption_execCmp {c : Cmp} (h : binaryInstr op = some (.cmp c : Instr D)) (x y : Value D) :
    (execCmp c x y).toOption = (binaryValues op x y).toOption := by
  cases op <;> cases h
  case eq | neq =>
    simp only [execCmp, binaryValues, equalityOp, scalarEqual_eq_valuesEqual]
    cases valuesEqual x y <;> rfl
  all_goals
    cases x with
    | number d => cases y <;> rfl
    | _ => first | rfl | exact toOption_raisedOr _ _

theorem step_binaryInstr {instr : Instr D} (h : binaryInstr op = some instr) :
    ∃ exec : Value D → Value D → Except Fault (Value D),
      (∀ a b, (exec a b).toOption = (binaryValues op a b).toOption) ∧
      ∀ (program : Program D) (host : Host S D) (m : Machine S D), step program host [] m instr =
        (m.pop2 >>= fun x => exec x.1 x.2.1 >>= fun v => x.2.2.pushNext v) := by
  cases op <;> cases h
  case plus | minus | star | slash | percent | power =>
    exact ⟨_, toOption_execArith rfl, fun program host m => rfl⟩
  all_goals exact ⟨_, toOption_execCmp rfl, fun program host m => rfl⟩

theorem toOption_execNeg (a : Value D) : (execIntrinsic .neg a).toOption = (unaryValue .minus a).toOption := by
  cases a with
  | int64 i =>
    simp only [execIntrinsic, unaryValue]
    split <;> rfl
  | _ => rfl

omit [Double D] in
def execNot : Value D → Except Fault (Value D)
  | .bool c => .ok (.bool !c)
  | _ => mismatch "Logical not requires bool operand"

theorem toOption_execNot (a : Value D) : (execNot a).toOption = (unaryValue .not a).toOption := by
  cases a <;> rfl

theorem step_not (program : Program D) (host : Host S D) (m : Machine S D) :
    step program host [] m .not = (m.pop1 >>= fun x => execNot x.1 >>= fun v => x.2.pushNext v) := by
  simp only [step, Machine.pop1]
  cases m.stack with
  | nil => rfl
  | cons v rest => cases v <;> rfl

theorem toOption_execSquare (a : Value D) : (execSquare a).toOption = squareMeaning a := by
  cases a <;> rfl

theorem toOption_execIndex (a b : Value D) : (execIndex a b).toOption = (indexMeaning (.ok a) (.ok b)).toOption := by
  cases a with
  | array values =>
    simp only [execIndex, indexMeaning, bind, Except.bind]
    cases constantIndex (some b) with
    | none => rfl
    | some i =>
      dsimp only
      cases values[i]? <;> rfl
  | _ => rfl

/-- The host answers for names as the environment does and for nodes of the fragment as `ask` does. -/
structure Answers (reg : Registry D) (indexed : Bool) (host : Host S D) (H : Set S) (env : Env D)
    (ask : Ast D → Option (Value D)) : Prop where
  var : ∀ s ∈ H, ∀ ip name, host.loadVariableTyped ip name s = .ok (env.var name, s)
  param : ∀ s ∈ H, ∀ ip name, host.loadParam ip name s = .ok (env.param name, s)
  numberParam : ∀ s ∈ H, ∀ ip name, host.lookupCachedParam ip name s = .ok ((env.param name).bind constantNumber, s)
  ast : ∀ s ∈ H, ∀ a, Scalar reg indexed a → match ask a with
    | some v => ∃ s' ∈ H, host.evalAst a s = .ok (v, s')
    | none => ∃ e, host.evalAst a s = .error e
  index : indexed = true → host.canResolveIndex = false ∧ ∀ target offset s, ∃ e,
    host.resolveLookbackTarget target offset s = .error e

section
variable {reg : Registry D} {indexed : Bool} {host : Host S D} {H : Set S} {env : Env D}
  {ask : Ast D → Option (Value D)} {program : Program D} {m : Machine S D} {b : Nat} {stack : List (Value D)}
  {spills : Prop}

def Pushes (host : Host S D) (H : Set S) (r : Option (Value D)) (need b : Nat) (code : List (Instr D)) : Prop :=
  ∀ program m stack, CodeAt program b code → At H b stack m →
    Ends program host H m (b + code.length) stack r (stackCapacity < stack.length + need)

variable {α : Type} {ast : Ast D}

omit [Double D] in
theorem run_found {x : α} {eff : Eff S (Option α)} {message : String}
    (heff : eff m.host = .ok (some x, m.host)) : Host.run m (found eff message) = .ok (x, m) := by
  have hfound : found eff message m.host = .ok (x, m.host) := Stateful.bind_apply_ok heff
  unfold Host.run
  rw [hfound]

omit [Double D] in
theorem run_found_none {eff : Eff S (Option α)} {message : String}
    (heff : eff m.host = .ok (none, m.host)) :
    Host.run m (found eff message) = .error (.raised ⟨.unknownIdentifier, message⟩) := by
  have hfound : found eff message m.host = .error ⟨.unknownIdentifier, message⟩ := Stateful.bind_apply_ok heff
  unfold Host.run
  rw [hfound]

theorem ends_load (v? : Option α) (message : String) (exec : α → Except Fault (Value D)) {instr : Instr D}
    {eff : Eff S (Option α)} (hinstr : program[b]? = some instr) (hat : At H b stack m)
    (heff : eff m.host = .ok (v?, m.host))
    (hstep : step program host [] m instr =
      (Host.run m (found eff message) >>= fun x => exec x.1 >>= fun v => x.2.pushNext v))
    (hover : stackCapacity ≤ stack.length → spills) :
    Ends program host H m (b + 1) stack (v?.bind fun v => (exec v).toOption) spills := by
  have hinstr' : program[m.ip]? = some instr := by rw [hat.ip]; exact hinstr
  cases v? with
  | none =>
    rw [run_found_none heff] at hstep
    exact .fault hinstr' hstep (.inl rfl)
  | some v =>
    rw [run_found heff] at hstep
    exact .push hinstr' hat hat.ip rfl hstep hover

variable {need : Nat} {v : Value D} {instr : Instr D}

theorem Pushes.mono {r : Option (Value D)} {need' : Nat} {code : List (Instr D)} (h : Pushes host H r need b code)
    (hneed : need ≤ need') : Pushes host H r need' b code :=
  fun program m stack hcode hat => (h program m stack hcode hat).mono fun hover => by omega

theorem pushes_constant (hneed : 1 ≤ need)
    (hstep : ∀ (program : Program D) (m : Machine S D), step program host [] m instr = m.pushNext v) :
    Pushes host H (some v) need b [instr] := by
  intro program m stack hcode hat
  have hinstr : program[m.ip]? = some instr := by rw [hat.ip]; exact codeAt_singleton hcode
  have hpush : step program host [] m instr = (.ok v : Except Fault (Value D)) >>= fun v => m.pushNext v :=
    hstep program m
  exact .push hinstr hat hat.ip rfl hpush (by omega)

theorem pushes_bool (hneed : 1 ≤ need) (c : Bool) :
    Pushes host H (some (.bool c)) need b [.pushBool (Double.ofBool c)] := by
  refine pushes_constant hneed fun program m => ?_
  simp only [step, Double.ne_ofBool_zero]

section
variable (hhost : Answers reg indexed host H env ask) (hneed : 1 ≤ need)
include hhost hneed

theorem pushes_loadVar (name : String) (payload : Option (Ast D)) :
    Pushes host H (env.var name) need b [.loadVar name payload] := by
  intro program m stack hcode hat
  have hload : Ends program host H m (b + 1) stack _ (stackCapacity < stack.length + need) := ends_load (env.var name) (unknownMessage "Unknown identifier" name) (fun v => .ok v)
    (codeAt_singleton hcode) hat (hhost.var m.host hat.host m.ip name)
    (by simp only [step, loadValue, hat.lookback]; rfl) (by omega)
  simpa [Except.toOption] using hload

theorem pushes_loadVarSquare (name : String) :
    Pushes host H ((env.var name).bind squareMeaning) need b [.loadVarSquare name] := by
  intro program m stack hcode hat
  have hload : Ends program host H m (b + 1) stack _ (stackCapacity < stack.length + need) := ends_load (env.var name) (unknownMessage "Unknown identifier" name) execSquare
    (codeAt_singleton hcode) hat (hhost.var m.host hat.host m.ip name)
    (by simp only [step, loadValue, hat.lookback]; rfl) (by omega)
  simp only [toOption_execSquare] at hload
  exact hload

theorem pushes_loadParam (name : String) : Pushes host H (env.param name) need b [.loadParam name] := by
  intro program m stack hcode hat
  have hload : Ends program host H m (b + 1) stack _ (stackCapacity < stack.length + need) := ends_load (env.param name) (unknownMessage "Unknown parameter variable" name) (fun v => .ok v)
    (codeAt_singleton hcode) hat (hhost.param m.host hat.host m.ip name) rfl (by omega)
  simpa [Except.toOption] using hload

theorem pushes_loadParamSquare (name : String) :
    Pushes host H ((env.param name).bind squareMeaning) need b [.loadParamSquare name] := by
  intro program m stack hcode hat
  have hload : Ends program host H m (b + 1) stack _ (stackCapacity < stack.length + need) := ends_load ((env.param name).bind constantNumber) (unknownMessage "Unknown parameter variable" name)
    (fun d => .ok (.number (Double.mul d d))) (codeAt_singleton hcode) hat
    (hhost.numberParam m.host hat.host m.ip name) rfl (by omega)
  have hsquare : (((env.param name).bind constantNumber).bind fun d =>
      (.ok (.number (Double.mul d d)) : Except Fault (Value D)).toOption) = (env.param name).bind squareMeaning := by
    cases env.param name with
    | none => rfl
    | some v => cases v <;> rfl
  rw [hsquare] at hload
  exact hload

theorem pushes_callAst {ast : Ast D} (hast : Scalar reg indexed ast) : Pushes host H (ask ast) need b [.callAst ast] := by
  intro program m stack hcode hat
  have hinstr : program[m.ip]? = some (.callAst ast) := by rw [hat.ip]; exact codeAt_singleton hcode
  have hanswer := hhost.ast m.host hat.host ast hast
  have hstep : step program host [] m (.callAst ast) =
      Host.run m (host.evalAst ast) >>= fun x => x.2.pushNext x.1 := by
    simp only [step, hat.lookback]
    rfl
  cases hask : ask ast with
  | none =>
    rw [hask] at hanswer
    obtain ⟨e, he⟩ := hanswer
    have hfault : step program host [] m (.callAst ast) = .error (.raised e) := by
      rw [hstep, Host.run, he]
      rfl
    exact .fault hinstr hfault (.inl rfl)
  | some v =>
    rw [hask] at hanswer
    obtain ⟨s', hs', he⟩ := hanswer
    have hpush : step program host [] m (.callAst ast) =
        (.ok v : Except Fault (Value D)) >>= fun v => Machine.pushNext { m with host := s' } v := by
      rw [hstep, Host.run, he]
      rfl
    have hat' : At H b stack { m with host := s' } := ⟨hat.ip, hat.stack, hat.lookback, hs'⟩
    exact .push hinstr hat' hat.ip rfl hpush (by omega)

end

/-! ### Composed code -/

variable {r rl rr : Option (Value D)} {cc cl cr ct ce : List (Instr D)}

theorem Pushes.unary (instr : Instr D) (exec : Value D → Except Fault (Value D)) (h : Pushes host H r need b cc) (hneed : 1 ≤ need)
    (hstep : ∀ (program : Program D) (m : Machine S D), step program host [] m instr =
      (m.pop1 >>= fun x => exec x.1 >>= fun v => x.2.pushNext v)) :
    Pushes host H (r.bind fun v => (exec v).toOption) need b (cc ++ [instr]) := by
  intro program m stack hcode hat
  obtain ⟨hcc, hinstr⟩ := codeAt_append hcode
  rw [List.length_append, List.length_singleton, ← Nat.add_assoc]
  refine (h program m stack hcc hat).bind fun v m₁ _ hat₁ => ?_
  have hi : program[m₁.ip]? = some instr := by rw [hat₁.ip]; exact codeAt_singleton hinstr
  have hpop : step program host [] m₁ instr = (exec v >>= fun w => Machine.pushNext { m₁ with stack } w) := by
    rw [hstep, Machine.pop1, hat₁.stack]
    rfl
  have hat' : At H (b + cc.length) stack { m₁ with stack } := ⟨hat₁.ip, rfl, hat₁.lookback, hat₁.host⟩
  exact .push hi hat' hat₁.ip rfl hpop (by omega)

theorem Pushes.binary (instr : Instr D) (exec : Value D → Value D → Except Fault (Value D)) {needl needr : Nat}
    (hl : Pushes host H rl needl b cl) (hr : Pushes host H rr needr (b + cl.length) cr)
    (hneedl : needl ≤ need) (hneedr : needr + 1 ≤ need)
    (hstep : ∀ (program : Program D) (m : Machine S D), step program host [] m instr =
      (m.pop2 >>= fun x => exec x.1 x.2.1 >>= fun v => x.2.2.pushNext v)) :
    Pushes host H (rl.bind fun x => rr.bind fun y => (exec x y).toOption) need b (cl ++ cr ++ [instr]) := by
  intro program m stack hcode hat
  obtain ⟨hcode, hinstr⟩ := codeAt_append hcode
  obtain ⟨hcl, hcr⟩ := codeAt_append hcode
  rw [List.length_append, ← Nat.add_assoc] at hinstr
  rw [List.length_append, List.length_append, List.length_singleton, ← Nat.add_assoc, ← Nat.add_assoc]
  have hfirst := (hl program m stack hcl hat).mono
    (fun hover => by omega : _ → stackCapacity < stack.length + need)
  refine hfirst.bind fun x m₁ _ hat₁ => ?_
  have hsecond := (hr program m₁ (x :: stack) hcr hat₁).mono
    (fun hover => by rw [List.length_cons] at hover; omega : _ → stackCapacity < stack.length + need)
  refine hsecond.bind fun y m₂ _ hat₂ => ?_
  have hi : program[m₂.ip]? = some instr := by
    rw [hat₂.ip]
    exact codeAt_singleton hinstr
  have hpop : step program host [] m₂ instr = (exec x y >>= fun w => Machine.pushNext { m₂ with stack } w) := by
    rw [hstep, Machine.pop2, hat₂.stack]
    rfl
  have hat' : At H (b + cl.length + cr.length) stack { m₂ with stack } := ⟨hat₂.ip, rfl, hat₂.lookback, hat₂.host⟩
  exact .push hi hat' hat₂.ip rfl hpop (by omega)

omit [Double D] in
def branch (v : Value D) (r : Bool → Option (Value D)) : Option (Value D) :=
  match v with
  | .bool c => r c
  | _ => none

theorem Ends.branch {v : Value D} {ipTrue ipFalse ip : Nat} {r : Bool → Option (Value D)}
    (hinstr : program[b]? = some instr) (hat : At H b (v :: stack) m) (hTrue : b < ipTrue) (hFalse : b < ipFalse)
    (hstep : Ir.step program host [] m instr = match v with
      | .bool c => .ok (.next { m with stack, ip := if c then ipTrue else ipFalse })
      | _ => mismatch "Conditional jump requires bool operand")
    (hr : ∀ c m₁, At H (if c then ipTrue else ipFalse) stack m₁ → Ends program host H m₁ ip stack (r c) spills) :
    Ends program host H m ip stack (Ir.branch v r) spills := by
  have hi : program[m.ip]? = some instr := by rw [hat.ip]; exact hinstr
  cases v with
  | bool c =>
    refine .step hi hstep ?_ (hr c _ ⟨rfl, rfl, hat.lookback, hat.host⟩)
    rw [hat.ip]
    cases c with
    | true => exact hTrue
    | false => exact hFalse
  | _ => exact .fault hi hstep (.inl rfl)

theorem Ends.jumpIfFalse {v : Value D} {target ip : Nat} {r : Bool → Option (Value D)}
    (hinstr : program[b]? = some (.jumpIfFalse target)) (htarget : b < target) (hat : At H b (v :: stack) m)
    (htrue : ∀ m₁, At H (b + 1) stack m₁ → Ends program host H m₁ ip stack (r true) spills)
    (hfalse : ∀ m₁, At H target stack m₁ → Ends program host H m₁ ip stack (r false) spills) :
    Ends program host H m ip stack (Ir.branch v r) spills := by
  have hstep : Ir.step program host [] m (.jumpIfFalse target) = match v with
      | .bool c => .ok (.next { m with stack, ip := if c then b + 1 else target })
      | _ => mismatch "Conditional jump requires bool operand" := by
    simp only [Ir.step, Machine.pop1, hat.stack, ← hat.ip]
    cases v <;> rfl
  refine .branch hinstr hat (Nat.lt_succ_self b) htarget hstep fun c m₁ hat₁ => ?_
  cases c with
  | true => exact htrue m₁ hat₁
  | false => exact hfalse m₁ hat₁

theorem Ends.jumpIfTrue {v : Value D} {target ip : Nat} {r : Bool → Option (Value D)}
    (hinstr : program[b]? = some (.jumpIfTrue target)) (htarget : b < target) (hat : At H b (v :: stack) m)
    (htrue : ∀ m₁, At H target stack m₁ → Ends program host H m₁ ip stack (r true) spills)
    (hfalse : ∀ m₁, At H (b + 1) stack m₁ → Ends program host H m₁ ip stack (r false) spills) :
    Ends program host H m ip stack (Ir.branch v r) spills := by
  have hstep : Ir.step program host [] m (.jumpIfTrue target) = match v with
      | .bool c => .ok (.next { m with stack, ip := if c then target else b + 1 })
      | _ => mismatch "Conditional jump requires bool operand" := by
    simp only [Ir.step, Machine.pop1, hat.stack, ← hat.ip]
    cases v <;> rfl
  refine .branch hinstr hat htarget (Nat.lt_succ_self b) hstep fun c m₁ hat₁ => ?_
  cases c with
  | true => exact htrue m₁ hat₁
  | false => exact hfalse m₁ hat₁

theorem Ends.jump {v : Value D} {target : Nat} (hinstr : program[b]? = some (.jump target)) (htarget : b < target)
    (hat : At H b (v :: stack) m) : Ends program host H m target stack (some v) spills := by
  have hi : program[m.ip]? = some (.jump target) := by rw [hat.ip]; exact hinstr
  refine .step hi rfl ?_ (.done ⟨rfl, hat.stack, hat.lookback, hat.host⟩)
  show m.ip < target
  rw [hat.ip]
  exact htarget

theorem Ends.pushBool {c : Bool} (hpush : program[b]? = some (.pushBool (Double.ofBool c))) (hat : At H b stack m)
    (hover : stackCapacity ≤ stack.length → spills) : Ends program host H m (b + 1) stack (some (.bool c)) spills := by
  have hi : program[m.ip]? = some (.pushBool (Double.ofBool c)) := by rw [hat.ip]; exact hpush
  have hstep : Ir.step program host [] m (.pushBool (Double.ofBool c)) =
      (.ok (.bool c) : Except Fault (Value D)) >>= fun v => m.pushNext v := by
    simp only [Ir.step, Double.ne_ofBool_zero]
    rfl
  exact .push hi hat hat.ip rfl hstep hover

theorem Ends.pushJump {c : Bool} {target : Nat} (hpush : program[b]? = some (.pushBool (Double.ofBool c)))
    (hjump : program[b + 1]? = some (.jump target)) (htarget : b + 1 < target) (hat : At H b stack m)
    (hover : stackCapacity ≤ stack.length → spills) : Ends program host H m target stack (some (.bool c)) spills :=
  (Ends.pushBool hpush hat hover).bind (k := some) fun _ _ _ hat₁ => .jump hjump htarget hat₁

omit [Double D] in
theorem condMeaning_eq (x y z : Option (Value D)) :
    condMeaning x y z = x.bind fun v => branch v fun c => if c then y else z := by
  cases x with
  | none => rfl
  | some v => cases v <;> rfl

omit [Double D] in
theorem andMeaning_eq (x y : Option (Value D)) : andMeaning x y = x.bind fun v => branch v fun c =>
    if c then y.bind fun w => branch w fun d => some (.bool d) else some (.bool false) := by
  cases x with
  | none => rfl
  | some v =>
    cases v with
    | bool c =>
      cases c with
      | false => rfl
      | true =>
        cases y with
        | none => rfl
        | some w => cases w <;> rfl
    | _ => rfl

omit [Double D] in
theorem orMeaning_eq (x y : Option (Value D)) : orMeaning x y = x.bind fun v => branch v fun c =>
    if c then some (.bool true) else y.bind fun w => branch w fun d => some (.bool d) := by
  cases x with
  | none => rfl
  | some v =>
    cases v with
    | bool c =>
      cases c with
      | true => rfl
      | false =>
        cases y with
        | none => rfl
        | some w => cases w <;> rfl
    | _ => rfl

theorem Pushes.ternary {rc rt re : Option (Value D)} {needc needt neede : Nat} (hc : Pushes host H rc needc b cc)
    (ht : Pushes host H rt needt (b + cc.length + 1) ct)
    (he : Pushes host H re neede (b + cc.length + 1 + ct.length + 1) ce) :
    Pushes host H (condMeaning rc rt re) (max needc (max needt neede)) b (ternaryCode b cc ct ce) := by
  intro program m stack hcode hat
  have hlen : b + (ternaryCode b cc ct ce).length = b + cc.length + 1 + ct.length + 1 + ce.length := by
    simp [ternaryCode]
    omega
  rw [hlen, condMeaning_eq]
  simp only [ternaryCode] at hcode
  obtain ⟨hcode, hce⟩ := codeAt_append hcode
  obtain ⟨hcode, hjump⟩ := codeAt_append hcode
  obtain ⟨hcode, hct⟩ := codeAt_append hcode
  obtain ⟨hcc, hbranch⟩ := codeAt_append hcode
  simp only [List.length_append, List.length_singleton, ← Nat.add_assoc] at hce hjump hct
  refine ((hc program m stack hcc hat).mono fun hover => by omega).bind fun v m₁ _ hat₁ => ?_
  refine .jumpIfFalse (codeAt_singleton hbranch) (by omega) hat₁ (fun m₂ hat₂ => ?_) fun m₂ hat₂ => ?_
  · have hthen := (ht program m₂ stack hct hat₂).bind (k := some) fun w m₃ _ hat₃ =>
      .jump (codeAt_singleton hjump) (by omega) hat₃
    rw [Option.bind_fun_some] at hthen
    exact hthen.mono fun hover => by omega
  · exact (he program m₂ stack hce hat₂).mono fun hover => by omega

theorem Pushes.and {needl needr : Nat} (hl : Pushes host H rl needl b cl)
    (hr : Pushes host H rr needr (b + cl.length + 1) cr) (hneed : 1 ≤ max needl needr) :
    Pushes host H (andMeaning rl rr) (max needl needr) b (andCode b cl cr) := by
  intro program m stack hcode hat
  have hlen : b + (andCode b cl cr).length = b + cl.length + 1 + cr.length + 4 := by
    simp [andCode]
    omega
  rw [hlen, andMeaning_eq]
  simp only [andCode] at hcode
  obtain ⟨hcode, hfalse⟩ := codeAt_append hcode
  obtain ⟨hcode, hjump⟩ := codeAt_append hcode
  obtain ⟨hcode, htrue⟩ := codeAt_append hcode
  obtain ⟨hcode, hright⟩ := codeAt_append hcode
  obtain ⟨hcode, hcr⟩ := codeAt_append hcode
  obtain ⟨hcl, hleft⟩ := codeAt_append hcode
  simp only [List.length_append, List.length_singleton, ← Nat.add_assoc] at hfalse hjump htrue hright hcr
  -- both jumps go to the push of `false`
  have hpushFalse : ∀ m₁, At H (b + cl.length + 1 + cr.length + 3) stack m₁ →
      Ends program host H m₁ (b + cl.length + 1 + cr.length + 4) stack (some (.bool false))
        (stackCapacity < stack.length + max needl needr) :=
    fun m₁ hat₁ => .pushBool (codeAt_singleton hfalse) hat₁ (by omega)
  refine ((hl program m stack hcl hat).mono fun hover => by omega).bind fun v m₁ _ hat₁ => ?_
  refine .jumpIfFalse (codeAt_singleton hleft) (by omega) hat₁ (fun m₂ hat₂ => ?_) hpushFalse
  refine ((hr program m₂ stack hcr hat₂).mono fun hover => by omega).bind fun w m₃ _ hat₃ => ?_
  refine .jumpIfFalse (codeAt_singleton hright) (by omega) hat₃ (fun m₄ hat₄ => ?_) hpushFalse
  exact .pushJump (codeAt_singleton htrue) (codeAt_singleton hjump) (by omega) hat₄ (by omega)

theorem Pushes.or {needl needr : Nat} (hl : Pushes host H rl needl b cl)
    (hr : Pushes host H rr needr (b + cl.length + 1) cr) (hneed : 1 ≤ max needl needr) :
    Pushes host H (orMeaning rl rr) (max needl needr) b (orCode b cl cr) := by
  intro program m stack hcode hat
  have hlen : b + (orCode b cl cr).length = b + cl.length + 1 + cr.length + 6 := by
    simp [orCode]
    omega
  rw [hlen, orMeaning_eq]
  simp only [orCode] at hcode
  obtain ⟨hcode, hfalse⟩ := codeAt_append hcode
  obtain ⟨hcode, hjump₂⟩ := codeAt_append hcode
  obtain ⟨hcode, htrue₂⟩ := codeAt_append hcode
  obtain ⟨hcode, hjump₁⟩ := codeAt_append hcode
  obtain ⟨hcode, htrue₁⟩ := codeAt_append hcode
  obtain ⟨hcode, hright⟩ := codeAt_append hcode
  obtain ⟨hcode, hcr⟩ := codeAt_append hcode
  obtain ⟨hcl, hleft⟩ := codeAt_append hcode
  simp only [List.length_append, List.length_singleton, ← Nat.add_assoc] at hfalse hjump₁ hjump₂ htrue₁ htrue₂ hright hcr
  refine ((hl program m stack hcl hat).mono fun hover => by omega).bind fun v m₁ _ hat₁ => ?_
  refine .jumpIfTrue (codeAt_singleton hleft) (by omega) hat₁ (fun m₂ hat₂ => ?_) fun m₂ hat₂ => ?_
  · exact .pushJump (codeAt_singleton htrue₂) (codeAt_singleton hjump₂) (by omega) hat₂ (by omega)
  · refine ((hr program m₂ stack hcr hat₂).mono fun hover => by omega).bind fun w m₃ _ hat₃ => ?_
    refine .jumpIfFalse (codeAt_singleton hright) (by omega) hat₃ (fun m₄ hat₄ => ?_) fun m₄ hat₄ => ?_
    · exact .pushJump (codeAt_singleton htrue₁) (codeAt_singleton hjump₁) (by omega) hat₄ (by omega)
    · exact .pushBool (codeAt_singleton hfalse) hat₄ (by omega)

def PushesAll (host : Host S D) (H : Set S) (rs : List (Option (Value D))) (need b : Nat) (code : List (Instr D)) :
    Prop :=
  ∀ program m stack, CodeAt program b code → At H b stack m →
    (Faults program host m ∧ (rs.mapM id = none ∨ stackCapacity < stack.length + need)) ∨
    ∃ vs m', rs.mapM id = some vs ∧ Reaches program host m m' ∧ At H (b + code.length) (vs.reverse ++ stack) m'

theorem PushesAll.mono {rs : List (Option (Value D))} {need' : Nat} (h : PushesAll host H rs need b cc)
    (hneed : need ≤ need') : PushesAll host H rs need' b cc :=
  fun program m stack hcode hat =>
    (h program m stack hcode hat).imp_left fun ⟨hfault, hr⟩ => ⟨hfault, hr.imp_right fun hover => by omega⟩

theorem pushesAll_nil : PushesAll host H [] need b [] :=
  fun _ m _ _ hat => .inr ⟨[], m, rfl, .refl m, hat⟩

theorem Pushes.cons {rs : List (Option (Value D))} {needs : Nat} {ccs : List (Instr D)} (h : Pushes host H r need b cc)
    (hs : PushesAll host H rs needs (b + cc.length) ccs) :
    PushesAll host H (r :: rs) (max need (needs + 1)) b (cc ++ ccs) := by
  intro program m stack hcode hat
  obtain ⟨hcc, hccs⟩ := codeAt_append hcode
  have hmapM : (r :: rs).mapM id = r.bind fun v => (rs.mapM id).bind fun vs => some (v :: vs) := by
    rw [List.mapM_cons]
    rfl
  rw [hmapM, List.length_append, ← Nat.add_assoc]
  rcases h program m stack hcc hat with ⟨hfault, hr⟩ | ⟨v, m₁, rfl, hreach, hat₁⟩
  · refine .inl ⟨hfault, hr.imp ?_ fun hover => by omega⟩
    rintro rfl
    rfl
  · rcases hs program m₁ (v :: stack) hccs hat₁ with ⟨hfault, hrs⟩ | ⟨vs, m₂, hvs, hreach₂, hat₂⟩
    · refine .inl ⟨hreach.faults hfault, hrs.imp ?_ fun hover => by rw [List.length_cons] at hover; omega⟩
      intro hnone
      simp [hnone]
    · refine .inr ⟨v :: vs, m₂, by simp [hvs], hreach.trans hreach₂, ?_⟩
      simpa using hat₂

theorem PushesAll.buildArray {rs : List (Option (Value D))} (h : PushesAll host H rs need b cc) (hneed : 1 ≤ need) :
    Pushes host H ((rs.mapM id).map .array) need b (cc ++ [Instr.buildArray rs.length]) := by
  intro program m stack hcode hat
  obtain ⟨hcc, hinstr⟩ := codeAt_append hcode
  rw [List.length_append, List.length_singleton, ← Nat.add_assoc]
  rcases h program m stack hcc hat with ⟨hfault, hr⟩ | ⟨vs, m₁, hvs, hreach, hat₁⟩
  · refine .inl ⟨hfault, hr.imp_left ?_⟩
    intro hnone
    rw [hnone]
    rfl
  · have hlen : rs.length = vs.length := by
      rw [mapM_id_eq_some hvs, List.length_map]
    have hi : program[m₁.ip]? = some (.buildArray rs.length) := by rw [hat₁.ip]; exact codeAt_singleton hinstr
    have hstep : step program host [] m₁ (.buildArray rs.length) =
        (.ok (.array vs) : Except Fault (Value D)) >>= fun v => Machine.pushNext { m₁ with stack } v := by
      have htake : m₁.stack.take rs.length = vs.reverse := by
        rw [hat₁.stack, hlen, ← List.length_reverse, List.take_left]
      have hdrop : m₁.stack.drop rs.length = stack := by
        rw [hat₁.stack, hlen, ← List.length_reverse, List.drop_left]
      have hle : ¬ m₁.stack.length < rs.length := by
        rw [hat₁.stack, hlen, List.length_append, List.length_reverse]
        omega
      simp only [step, Machine.popArgs, if_neg hle, htake, hdrop, List.reverse_reverse]
      rfl
    have hat' : At H (b + cc.length) stack { m₁ with stack } := ⟨hat₁.ip, rfl, hat₁.lookback, hat₁.host⟩
    have hpush : Ends program host H m₁ (b + cc.length + 1) stack (some (.array vs)) (stackCapacity < stack.length + need) :=
      .push hi hat' hat₁.ip rfl hstep (by omega)
    rw [hvs]
    rcases hpush with ⟨hfault, hr⟩ | ⟨w, m₂, hw, hreach₂, hat₂⟩
    · exact .inl ⟨hreach.faults hfault, hr⟩
    · exact .inr ⟨w, m₂, hw, hreach.trans hreach₂, hat₂⟩

section
variable (hhost : Answers reg indexed host H env ask) (hindexed : indexed = true)
include hhost hindexed

theorem pushes_lookbackResolve (target : Ast D) (offset : Nat) :
    Pushes host H none need b [.lookbackResolve target offset] := by
  intro program m stack hcode hat
  have hinstr : program[m.ip]? = some (.lookbackResolve target offset) := by rw [hat.ip]; exact codeAt_singleton hcode
  have hstep : step program host [] m (.lookbackResolve target offset) =
      runtimeError "Index requires registry capability or lookback resolver" := by
    simp only [step, (hhost.index hindexed).1]
    rfl
  exact .fault hinstr hstep (.inl rfl)

theorem pushes_lookbackVar (offset : Nat) (name : String) (payload : Option (Ast D)) :
    Pushes host H none need b ([Instr.lookbackPush offset] ++ [Instr.loadVar name payload] ++ [Instr.lookbackPop]) := by
  intro program m stack hcode hat
  obtain ⟨hcode, -⟩ := codeAt_append hcode
  obtain ⟨hpush, hload⟩ := codeAt_append hcode
  have hi : program[m.ip]? = some (.lookbackPush offset) := by rw [hat.ip]; exact codeAt_singleton hpush
  -- the push may overflow; if it does not, the load fails inside the lookback
  by_cases hdepth : stackCapacity ≤ m.lookbackStack.length
  · have hstep : step program host [] m (.lookbackPush offset) = runtimeError "Lookback offset stack overflow" := by
      simp only [step, if_pos hdepth]
    exact .fault hi hstep (.inl rfl)
  by_cases hsize : sizeMax - m.lookbackOffset < offset
  · have hstep : step program host [] m (.lookbackPush offset) = runtimeError "Lookback offset overflow" := by
      simp only [step, if_neg hdepth, if_pos hsize]
    exact .fault hi hstep (.inl rfl)
  let m₁ : Machine S D := { m with
    ip := m.ip + 1
    lookbackStack := m.lookbackOffset :: m.lookbackStack
    lookbackOffset := m.lookbackOffset + offset
    lookbackDepth := m.lookbackDepth + 1 }
  have hstep : step program host [] m (.lookbackPush offset) = .ok (.next m₁) := by
    simp only [step, if_neg hdepth, if_neg hsize, m₁]
  refine .step hi hstep (Nat.lt_succ_self m.ip) ?_
  have hi₁ : program[m₁.ip]? = some (.loadVar name payload) := by
    show program[m.ip + 1]? = _
    rw [hat.ip]
    exact codeAt_singleton hload
  obtain ⟨target, htarget⟩ : ∃ target, lookbackTarget (.loadVar name payload : Instr D) = some target := by
    cases payload with
    | none => exact ⟨_, rfl⟩
    | some ast => exact ⟨_, rfl⟩
  obtain ⟨e, he⟩ := (hhost.index hindexed).2 target m₁.lookbackOffset m₁.host
  have hfail : step program host [] m₁ (.loadVar name payload) = .error (.raised e) := by
    have hpos : 0 < m₁.lookbackDepth := Nat.succ_pos m.lookbackDepth
    simp only [step, loadValue, if_pos hpos, htarget, Host.run, he]
    rfl
  exact .fault hi₁ hfail (.inl rfl)

end

def plainIdentifier (name : String) : Compile D := emit (.loadVar name (some (.identifier name)))

omit [Double D] in
theorem appends_one {P : Nat → List (Instr D) → Prop} (h : ∀ b, P b [instr]) : Appends (emit instr) P := by
  refine appends_emit.mono ?_
  rintro b _ rfl
  exact h b

theorem appends_folded {otherwise : Compile D} (hneed : 1 ≤ need)
    (h : Appends otherwise (Pushes host H r need)) :
    Appends (folded reg ast otherwise) (Pushes host H (foldedMeaning reg ast r) need) := by
  unfold folded foldedMeaning
  cases constantTypedValue ast reg with
  | none => exact h
  | some v =>
    cases v with
    | number d => exact appends_one fun b => pushes_constant hneed fun program m => rfl
    | bool c => exact appends_one fun b => pushes_bool hneed c
    | string text => exact appends_one fun b => pushes_constant hneed fun program m => rfl
    | _ => exact h

section
variable {inline : InlineBody D} {ast l r' : Ast D}

theorem compileNode_binary {op : BinaryOp} (hand : op ≠ .and) (hor : op ≠ .or) {instr : Instr D}
    (hinstr : binaryInstr op = some instr) :
    compileNode reg [] [] plainIdentifier inline (.binary op l r') = folded reg (.binary op l r')
      (if op == .star && astEqual l r' then
        match emitLeafSquare [] [] l with
        | some instr => emit instr
        | none => emitAfter [compileNode reg [] [] plainIdentifier inline l] .square
      else emitAfter [compileNode reg [] [] plainIdentifier inline l,
        compileNode reg [] [] plainIdentifier inline r'] instr) := by
  cases op <;> first
    | exact absurd rfl hand
    | exact absurd rfl hor
    | (cases hinstr; rfl)

theorem appends_square (hhost : Answers reg indexed host H env ask) (hast : Scalar reg indexed ast) (hneed : 1 ≤ need)
    (h : Appends (compileNode reg [] [] plainIdentifier inline ast)
      (Pushes host H (compiledMeaning reg env ask ast) need)) :
    Appends (match emitLeafSquare [] [] ast with
      | some instr => emit instr
      | none => emitAfter [compileNode reg [] [] plainIdentifier inline ast] .square)
      (Pushes host H ((compiledMeaning reg env ask ast).bind squareMeaning) need) := by
  have hsquare : Appends (emitAfter [compileNode reg [] [] plainIdentifier inline ast] .square)
      (Pushes host H ((compiledMeaning reg env ask ast).bind squareMeaning) need) := by
    refine (appends_unary h).mono ?_
    rintro b _ ⟨cc, rfl, hcc⟩
    have hunary := hcc.unary .square execSquare hneed fun program m => rfl
    simp only [toOption_execSquare] at hunary
    exact hunary
  cases hast with
  | identifier name => exact appends_one fun b => pushes_loadVarSquare hhost hneed name
  | param name => exact appends_one fun b => pushes_loadParamSquare hhost hneed name
  | _ => exact hsquare

theorem appends_compileLookback (hhost : Answers reg indexed host H env ask) (hindexed : indexed = true)
    (hast : Scalar reg indexed ast) (offset : Nat) :
    Appends (compileLookback reg [] [] plainIdentifier inline ast
      (compileNode reg [] [] plainIdentifier inline ast) offset) (Pushes host H none need) := by
  induction hast generalizing offset with
  | identifier name =>
    refine (appends_lookback appends_emit).mono ?_
    rintro b _ ⟨cc, rfl, rfl⟩
    exact pushes_lookbackVar hhost hindexed offset name _
  | index hi hreg ht hi' iht ihi =>
    rw [compileLookback]
    split
    · exact iht _
    · exact appends_one fun b => pushes_lookbackResolve hhost hindexed _ _
  | _ => exact appends_one fun b => pushes_lookbackResolve hhost hindexed _ _

theorem appends_compileNode (hhost : Answers reg indexed host H env ask) (hast : Scalar reg indexed ast) :
    Appends (compileNode reg [] [] plainIdentifier inline ast)
      (Pushes host H (compiledMeaning reg env ask ast) (operandDepth ast)) := by
  have hneed := one_le_operandDepth hast
  induction hast with
  | number hv => exact appends_one fun b => pushes_constant hneed fun program m => rfl
  | bool c => exact appends_one fun b => pushes_bool hneed c
  | identifier name => exact appends_one fun b => pushes_loadVar hhost hneed name _
  | param name => exact appends_one fun b => pushes_loadParam hhost hneed name
  | unary op ha iha =>
    have hcode := iha (one_le_operandDepth ha)
    cases op with
    | minus =>
      refine appends_folded hneed ((appends_unary hcode).mono ?_)
      rintro b _ ⟨cc, rfl, hcc⟩
      have hunary := hcc.unary (.intrinsic .neg) (execIntrinsic .neg) hneed fun program m => rfl
      simp only [toOption_execNeg] at hunary
      exact hunary
    | not =>
      refine appends_folded hneed ((appends_unary hcode).mono ?_)
      rintro b _ ⟨cc, rfl, hcc⟩
      have hunary := hcc.unary .not execNot hneed fun program m => step_not program host m
      simp only [toOption_execNot] at hunary
      exact hunary
  | @binary op l r hl hr ihl ihr =>
    have hcl := ihl (one_le_operandDepth hl)
    have hcr := ihr (one_le_operandDepth hr)
    by_cases hand : op = .and
    · subst hand
      refine appends_folded hneed ?_
      have hboth : Appends (emitAnd (compileNode reg [] [] plainIdentifier inline l)
          (compileNode reg [] [] plainIdentifier inline r)) (Pushes host H (andMeaning (compiledMeaning reg env ask l)
          (compiledMeaning reg env ask r)) (operandDepth (.binary .and l r))) := by
        refine (appends_emitAnd hcl hcr).mono ?_
        rintro b _ ⟨cl, cr, rfl, hcl, hcr⟩
        exact hcl.and hcr hneed
      cases constantTypedValue l reg with
      | none => exact hboth
      | some v =>
        cases v with
        | bool c =>
          cases c with
          | false => exact appends_one fun b => pushes_bool hneed false
          | true => exact hcr.mono fun b code h => h.mono (Nat.le_max_right _ _)
        | _ => exact hboth
    by_cases hor : op = .or
    · subst hor
      refine appends_folded hneed ?_
      have hboth : Appends (emitOr (compileNode reg [] [] plainIdentifier inline l)
          (compileNode reg [] [] plainIdentifier inline r)) (Pushes host H (orMeaning (compiledMeaning reg env ask l)
          (compiledMeaning reg env ask r)) (operandDepth (.binary .or l r))) := by
        refine (appends_emitOr hcl hcr).mono ?_
        rintro b _ ⟨cl, cr, rfl, hcl, hcr⟩
        exact hcl.or hcr hneed
      cases constantTypedValue l reg with
      | none => exact hboth
      | some v =>
        cases v with
        | bool c =>
          cases c with
          | true => exact appends_one fun b => pushes_bool hneed true
          | false => exact hcr.mono fun b code h => h.mono (Nat.le_max_right _ _)
        | _ => exact hboth
    obtain ⟨instr, hinstr⟩ : ∃ instr, binaryInstr op = some (instr : Instr D) := by
      cases op <;> first
        | exact absurd rfl hand
        | exact absurd rfl hor
        | exact ⟨_, rfl⟩
    rw [compileNode_binary hand hor hinstr, compiledMeaning_binary hand hor]
    refine appends_folded hneed ?_
    have hdepth := operandDepth_binary hand hor l r
    split
    · refine (appends_square hhost hl (one_le_operandDepth hl) hcl).mono fun b code h => h.mono ?_
      omega
    · obtain ⟨exec, hexec, hstep⟩ := step_binaryInstr (S := S) hinstr
      refine (appends_binary hcl hcr).mono ?_
      rintro b _ ⟨cl, cr, rfl, hcl, hcr⟩
      have hbinary := hcl.binary instr exec hcr (by omega : operandDepth l ≤ operandDepth (.binary op l r)) (by omega)
        fun program m => hstep program host m
      simp only [hexec] at hbinary
      exact hbinary
  | ternary hc ht he ihc iht ihe =>
    refine appends_folded hneed ((appends_emitTernary (ihc (one_le_operandDepth hc)) (iht (one_le_operandDepth ht))
      (ihe (one_le_operandDepth he))).mono ?_)
    rintro b _ ⟨cc, ct, ce, rfl, hcc, hct, hce⟩
    exact hcc.ternary hct hce
  | ifCall hif hc ht he argNames ihc iht ihe =>
    refine appends_folded hneed ?_
    simp only [compileCall]
    split
    · exact appends_one fun b => pushes_callAst hhost hneed (.ifCall hif hc ht he argNames)
    · refine ((appends_emitTernary (ihc (one_le_operandDepth hc)) (iht (one_le_operandDepth ht))
        (ihe (one_le_operandDepth he))).mono ?_)
      rintro b _ ⟨cc, ct, ce, rfl, hcc, hct, hce⟩
      refine (hcc.ternary hct hce).mono ?_
      simp only [operandDepth, operandDepths, List.foldr]
      omega
  | @array hi es hes ih =>
    have hlist : Appends (compileAll (compileList reg [] [] plainIdentifier inline es))
        (PushesAll host H (compiledMeanings reg env ask es) (stackedDepth (operandDepths es))) := by
      clear hneed
      induction es with
      | nil =>
        refine appends_compileAll_nil.mono ?_
        rintro b _ rfl
        exact pushesAll_nil
      | cons e es ih' =>
        have he := ih e (by simp) (one_le_operandDepth (hes e (by simp)))
        have hes' := ih' (fun x hx => hes x (by simp [hx])) (fun x hx => ih x (by simp [hx]))
        refine (appends_compileAll_cons he hes').mono ?_
        rintro b _ ⟨cc, ccs, rfl, hcc, hccs⟩
        exact hcc.cons hccs
    refine appends_folded hneed ((appends_emitAfter hlist).mono ?_)
    rintro b _ ⟨cc, rfl, hcc⟩
    have hlen : (compiledMeanings reg env ask es).length = es.length := by
      clear hneed hlist hcc ih hes
      induction es with
      | nil => rfl
      | cons e es ih => simp [compiledMeanings, ih]
    rw [← hlen]
    exact (hcc.mono (Nat.le_max_right 1 _)).buildArray hneed
  | @index hi hreg t i ht hi' iht ihi =>
    refine appends_folded hneed ?_
    split
    · refine (appends_binary (iht (one_le_operandDepth ht)) (ihi (one_le_operandDepth hi'))).mono ?_
      rintro b _ ⟨cl, cr, rfl, hcl, hcr⟩
      have hle : operandDepth t ≤ operandDepth (.index t i) := Nat.le_max_left _ _
      have hbinary := hcl.binary .index execIndex hcr hle (Nat.le_max_right _ _) fun program m => rfl
      simp only [toOption_execIndex] at hbinary
      exact hbinary
    · cases hoffset : lookbackLiteralOffset i with
      | none => exact appends_one fun b => pushes_callAst hhost hneed (.index hi hreg ht hi')
      | some offset => exact appends_compileLookback hhost hi ht offset

end

def Succeeds (c : Compile D) : Prop := ∀ p, ∃ p', c p = .ok p'

omit [Double D] in
theorem succeeds_emit : Succeeds (emit instr) := fun _ => ⟨_, rfl⟩

omit [Double D] in
theorem Succeeds.bind {c : Compile D} {k : Program D → Except Error (Program D)} (hc : Succeeds c)
    (hk : ∀ p, ∃ p', k p = .ok p') : Succeeds fun p => c p >>= k := by
  intro p
  obtain ⟨p₁, h₁⟩ := hc p
  obtain ⟨p₂, h₂⟩ := hk p₁
  exact ⟨p₂, bind_eq_ok.mpr ⟨p₁, h₁, h₂⟩⟩

omit [Double D] in
theorem succeeds_emitAfter {acts : List (Compile D)} (h : ∀ c ∈ acts, Succeeds c) : Succeeds (emitAfter acts instr) := by
  have hall : Succeeds (compileAll acts) := by
    induction acts with
    | nil => exact fun p => ⟨p, rfl⟩
    | cons c cs ih =>
      exact (h c (by simp)).bind (ih fun c' hc' => h c' (by simp [hc']))
  exact hall.bind succeeds_emit

section
variable {c t e l r' : Compile D}

omit [Double D] in
theorem succeeds_emitTernary (hc : Succeeds c) (ht : Succeeds t) (he : Succeeds e) : Succeeds (emitTernary c t e) := by
  intro p
  obtain ⟨p₁, h₁⟩ := hc p
  obtain ⟨p₂, h₂⟩ := ht (p₁ ++ [Instr.jumpIfFalse 0])
  obtain ⟨p₃, h₃⟩ := he (patchTarget (p₂ ++ [Instr.jump 0]) (nextIndex p₁) (nextIndex (p₂ ++ [Instr.jump 0])))
  exact ⟨_, bind_eq_ok.mpr ⟨p₁, h₁, bind_eq_ok.mpr ⟨_, rfl, bind_eq_ok.mpr ⟨p₂, h₂,
    bind_eq_ok.mpr ⟨_, rfl, bind_eq_ok.mpr ⟨p₃, h₃, rfl⟩⟩⟩⟩⟩⟩

theorem succeeds_emitAnd (hl : Succeeds l) (hr : Succeeds r') : Succeeds (emitAnd l r') := by
  intro p
  obtain ⟨p₁, h₁⟩ := hl p
  obtain ⟨p₂, h₂⟩ := hr (p₁ ++ [Instr.jumpIfFalse 0])
  exact ⟨_, bind_eq_ok.mpr ⟨p₁, h₁, bind_eq_ok.mpr ⟨_, rfl, bind_eq_ok.mpr ⟨p₂, h₂, rfl⟩⟩⟩⟩

theorem succeeds_emitOr (hl : Succeeds l) (hr : Succeeds r') : Succeeds (emitOr l r') := by
  intro p
  obtain ⟨p₁, h₁⟩ := hl p
  obtain ⟨p₂, h₂⟩ := hr (p₁ ++ [Instr.jumpIfTrue 0])
  exact ⟨_, bind_eq_ok.mpr ⟨p₁, h₁, bind_eq_ok.mpr ⟨_, rfl, bind_eq_ok.mpr ⟨p₂, h₂, rfl⟩⟩⟩⟩

theorem succeeds_folded {ast : Ast D} (h : Succeeds c) : Succeeds (folded reg ast c) := by
  unfold folded
  split
  · exact succeeds_emit
  · exact h

end

theorem compileLookback_succeeds {inline : InlineBody D} (hast : Scalar reg indexed ast) (offset : Nat) :
    Succeeds (compileLookback reg [] [] plainIdentifier inline ast
      (compileNode reg [] [] plainIdentifier inline ast) offset) := by
  induction hast generalizing offset with
  | identifier name => exact fun p => ⟨_, rfl⟩
  | index hi hreg ht hi' iht ihi =>
    rw [compileLookback]
    split
    · exact iht _
    · exact succeeds_emit
  | _ => exact succeeds_emit

theorem compileNode_succeeds (hast : Scalar reg indexed ast) (inline : InlineBody D) :
    Succeeds (compileNode reg [] [] plainIdentifier inline ast) := by
  induction hast with
  | number | bool | identifier | param => exact fun p => ⟨_, rfl⟩
  | unary op ha iha =>
    cases op <;> exact succeeds_folded (succeeds_emitAfter (by simpa using iha))
  | @binary op l r hl hr ihl ihr =>
    by_cases hand : op = .and
    · subst hand
      refine succeeds_folded ?_
      split
      · exact succeeds_emit
      · exact ihr
      · exact succeeds_emitAnd ihl ihr
    by_cases hor : op = .or
    · subst hor
      refine succeeds_folded ?_
      split
      · exact succeeds_emit
      · exact ihr
      · exact succeeds_emitOr ihl ihr
    obtain ⟨instr, hinstr⟩ : ∃ instr, binaryInstr op = some (instr : Instr D) := by
      cases op <;> first
        | exact absurd rfl hand
        | exact absurd rfl hor
        | exact ⟨_, rfl⟩
    rw [compileNode_binary hand hor hinstr]
    refine succeeds_folded ?_
    split
    · split
      · exact succeeds_emit
      · exact succeeds_emitAfter (by simpa using ihl)
    · exact succeeds_emitAfter (by simpa using ⟨ihl, ihr⟩)
  | ternary hc ht he ihc iht ihe => exact succeeds_folded (succeeds_emitTernary ihc iht ihe)
  | ifCall hif hc ht he argNames ihc iht ihe =>
    refine succeeds_folded ?_
    simp only [compileCall]
    split
    · exact succeeds_emit
    · exact succeeds_emitTernary ihc iht ihe
  | @array hi es hes ih =>
    refine succeeds_folded (succeeds_emitAfter ?_)
    clear hes
    induction es with
    | nil => simp [compileList]
    | cons e es ih' =>
      rw [compileList]
      exact List.forall_mem_cons.mpr ⟨ih e (by simp), ih' fun x hx => ih x (by simp [hx])⟩
  | @index hi hreg t i ht hi' iht ihi =>
    refine succeeds_folded ?_
    split
    · exact succeeds_emitAfter (by simpa using ⟨iht, ihi⟩)
    · cases lookbackLiteralOffset i with
      | none => exact succeeds_emit
      | some offset => exact compileLookback_succeeds ht offset

theorem execTyped_spec (hhost : Answers reg indexed host H env ask) (hast : Scalar reg indexed ast) {s : S}
    (hs : s ∈ H) : ∃ code, compile ast reg = .ok code ∧
      ((∃ f, execTyped code host [] s = some (.error f)) ∧
        (compiledMeaning reg env ask ast = none ∨ stackCapacity < operandDepth ast) ∨
      ∃ v s', compiledMeaning reg env ask ast = some v ∧ s' ∈ H ∧ execTyped code host [] s = some (.ok (v, s'))) := by
  obtain ⟨code, hcode⟩ := compileNode_succeeds hast (inlineBody reg [] inlineDepthLimit) []
  obtain ⟨code', hcode', hpushes⟩ := appends_compileNode hhost hast [] code hcode
  rw [List.nil_append] at hcode'
  subst hcode'
  obtain ⟨program, hprogram⟩ : ∃ program, program = code ++ [(.ret : Instr D)] := ⟨_, rfl⟩
  refine ⟨program, bind_eq_ok.mpr ⟨code, hcode, by rw [hprogram]; rfl⟩, ?_⟩
  have hat : At H 0 [] ({ host := s } : Machine S D) := ⟨rfl, rfl, rfl, hs⟩
  have hplaced : CodeAt program 0 code := by
    intro i instr hi
    rw [hprogram, Nat.zero_add, List.getElem?_append_left (List.getElem?_eq_some_iff.mp hi).1]
    exact hi
  have hlen : program.length = code.length + 1 := by rw [hprogram, List.length_append, List.length_singleton]
  have hexec : execTyped program host [] s = runTyped program host [] (program.length + 1) { host := s } := by
    simp [execTyped, hprogram]
  rw [hexec]
  rcases hpushes program _ [] hplaced hat with ⟨⟨m, instr, f, hreach, hinstr, hstep⟩, hr⟩ | ⟨v, m, hv, hreach, hat'⟩
  · refine .inl ⟨⟨f, ?_⟩, hr.imp_right fun hover => by simpa using hover⟩
    have hlt := (List.getElem?_eq_some_iff.mp hinstr).1
    have hfuel : 1 + (m.ip - 0) ≤ program.length + 1 := by omega
    obtain ⟨fuel, hfuel', hrun⟩ := hreach.runTyped hfuel
    obtain ⟨k, rfl⟩ : ∃ k, fuel = k + 1 := ⟨fuel - 1, by omega⟩
    rw [hrun]
    simp only [runTyped, hinstr, hstep]
  · refine .inr ⟨v, m.host, hv, hat'.host, ?_⟩
    have hip : m.ip = code.length := hat'.ip.trans (Nat.zero_add _)
    have hfuel : 1 + (m.ip - 0) ≤ program.length + 1 := by omega
    obtain ⟨fuel, hfuel', hrun⟩ := hreach.runTyped hfuel
    obtain ⟨k, rfl⟩ : ∃ k, fuel = k + 1 := ⟨fuel - 1, by omega⟩
    have hinstr : program[m.ip]? = some .ret := by simp [hip, hprogram]
    have hstep : step program host [] m .ret = .ok (.halt v m.host) := by
      simp only [step, Machine.pop1, hat'.stack]
      rfl
    rw [hrun]
    simp only [runTyped, hinstr, hstep]

end
end Cxpr.Ir
