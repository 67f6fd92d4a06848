import Mathlib.Logic.Relation
import Cxpr.Ir.Api
import Cxpr.Ir.StackSafety

/-! The validators of fast programs (`src/ir/validate.c`) against the fast executors (`src/ir/exec/fast.c`), for any
    program, compiled or not. The validators follow the depth of the stacks along the control flow, and the executors
    keep to that depth: the scalar one always, the bool one as long as every called function returns a value of the
    kind that the validator counts for it. -/

namespace Cxpr.Ir
variable {S D : Type}

section
variable {s : S}

theorem safe_runHost {α : Type} (eff : Eff S α) : Safe (runHost s eff) fun _ => True := by
  unfold runHost
  split <;> trivial

theorem safe_popMany {α : Type} {n : Nat} {stack : List α} (h : n ≤ stack.length) :
    Safe (popMany n stack) fun r => r.1 = (stack.take n).reverse ∧ r.2 = stack.drop n := by
  unfold popMany
  rw [if_neg (by omega)]
  exact ⟨rfl, rfl⟩

variable [Double D]

theorem safe_scalarOf (message : String) (v : Value D) : Safe (scalarOf message v) fun _ => True := by
  cases v <;> trivial

omit [Double D] in
theorem safe_definedScalar (v : Value D) : Safe (definedScalar v) fun w => w = v := by
  cases v <;> trivial

theorem safe_fastArith (op : Arith) (a b : D) : Safe (fastArith op a b) fun _ => True := by
  cases op with
  | div | mod =>
    simp only [fastArith]
    split <;> trivial
  | _ => trivial

omit [Double D] in
theorem safe_loadScalar (eff : Eff S (Option D)) (message : String) : Safe (loadScalar s eff message) fun _ => True := by
  refine (safe_runHost eff).bind fun r _ => ?_
  obtain ⟨v, s'⟩ := r
  cases v <;> trivial

omit [Double D] in
theorem safe_fastNative {host : Host S D} {func : FuncEntry D} {payload : Ast D} {f : List D → D} {args : List D} :
    Safe (fastNative host s func payload f args) fun _ => True := by
  refine (safe_runHost _).bind fun r _ => ?_
  obtain ⟨memo, s'⟩ := r
  cases memo with
  | some v => trivial
  | none => exact (safe_runHost _).bind fun _ _ => trivial

theorem safe_fastCallFunc {host : Host S D} {func : FuncEntry D} {payload : Ast D} {args : List D} :
    Safe (fastCallFunc host s func payload args) fun _ => True := by
  refine (safe_runHost _).bind fun r _ => ?_
  obtain ⟨memo, s'⟩ := r
  cases memo with
  | some v => trivial
  | none =>
    dsimp only
    split
    · exact (safe_scalarOf _ _).bind fun _ _ => (safe_runHost _).bind fun _ _ => trivial
    · exact (safe_runHost _).bind fun _ _ => trivial
    · trivial

end

theorem scalarDepthEffect_eq_some {instr : Instr D} {d after : Nat} (h : scalarDepthEffect instr d = some after) :
    ∃ pops pushes, scalarStackEffect instr = some (pops, pushes) ∧ pops ≤ d ∧ after = d - pops + pushes ∧
      after ≤ stackCapacity ∧ (instr = .ret → d = 1) := by
  unfold scalarDepthEffect at h
  cases heffect : scalarStackEffect instr with
  | none =>
    rw [heffect] at h
    cases h
  | some effect =>
    obtain ⟨pops, pushes⟩ := effect
    rw [heffect] at h
    simp only at h
    split at h
    · cases h
    · rename_i hroom
      simp only [Bool.or_eq_true, decide_eq_true_eq, not_or, Nat.not_lt] at hroom
      refine ⟨pops, pushes, rfl, hroom.1, ?_⟩
      split at h
      · split at h
        · rename_i hd
          cases heffect
          cases h
          exact ⟨by omega, by simp [stackCapacity], fun _ => hd⟩
        · cases h
      · rename_i hret
        cases h
        exact ⟨rfl, hroom.2, fun h => absurd h (by simpa using hret)⟩

def ScalarGoes (m : ScalarMachine S D) (instr : Instr D) (after : Nat) : ScalarStep S D → Prop
  | .next m' => m'.ip ∈ flow instr m.ip ∧ m'.stack.length = after
  | .halt _ _ => instr = .ret

section
variable {m : ScalarMachine S D}

theorem safe_scalarPop1 (h : 1 ≤ m.stack.length) :
    Safe m.pop1 fun r => r.2.ip = m.ip ∧ r.2.stack.length = m.stack.length - 1 := by
  unfold ScalarMachine.pop1
  split
  · rename_i hs
    exact ⟨rfl, by simp [hs]⟩
  · rename_i hs
    simp [hs] at h

theorem safe_scalarPop2 (h : 2 ≤ m.stack.length) :
    Safe m.pop2 fun r => r.2.2.ip = m.ip ∧ r.2.2.stack.length = m.stack.length - 2 := by
  unfold ScalarMachine.pop2
  split
  · rename_i hs
    exact ⟨rfl, by simp [hs]⟩
  · rename_i hs
    match hm : m.stack, h with
    | a :: b :: rest, _ => exact absurd hm (hs a b rest)

variable [Double D]

theorem scalarStep_safe {host : Host S D} {instr : Instr D} {after : Nat}
    (h : scalarDepthEffect instr m.stack.length = some after) :
    Safe (scalarStep host m instr) (ScalarGoes m instr after) := by
  obtain ⟨pops, pushes, heffect, hpops, rfl, -, hret⟩ := scalarDepthEffect_eq_some h
  clear h
  cases instr with
  | pushConst | pushBool =>
    cases heffect
    exact ⟨by simp [flow], rfl⟩
  | loadLocal | loadLocalSquare =>
    cases heffect
    simp only [scalarStep]
    split
    · exact ⟨by simp [flow], rfl⟩
    · trivial
  | loadVar | loadVarSquare | loadParam | loadParamSquare =>
    cases heffect
    exact (safe_loadScalar _ _).bind fun r _ => ⟨by simp [flow], rfl⟩
  | arith op =>
    cases heffect
    refine (safe_scalarPop2 hpops).bind fun r hr => (safe_fastArith op _ _).bind fun _ _ => ?_
    exact ⟨by simp [flow, hr.1], by simp [hr.2]⟩
  | cmp op =>
    cases heffect
    refine (safe_scalarPop2 hpops).bind fun r hr => ?_
    exact ⟨by simp [flow, hr.1], by simp [hr.2]⟩
  | square | not | intrinsic =>
    cases heffect
    refine (safe_scalarPop1 hpops).bind fun r hr => ?_
    exact ⟨by simp [flow, hr.1], by simp [hr.2]⟩
  | clamp =>
    cases heffect
    refine (safe_scalarPop2 (Nat.le_of_succ_le hpops)).bind fun r hr => ?_
    have hlen : 1 ≤ r.2.2.stack.length := by
      rw [hr.2]
      exact Nat.le_sub_of_add_le hpops
    refine (safe_scalarPop1 hlen).bind fun r₁ hr₁ => ?_
    refine ⟨by simp [flow, hr.1, hr₁.1], ?_⟩
    show r₁.2.stack.length + 1 = _
    rw [hr₁.2, hr.2]
    rfl
  | callUnary | callBinary | callTernary =>
    cases heffect
    refine (safe_popMany hpops).bind fun r hr => safe_fastNative.bind fun _ _ => (safe_scalarOf _ _).bind fun _ _ => ?_
    exact ⟨by simp [flow], by simp [hr.2]⟩
  | callFunc func payload n =>
    simp only [scalarStackEffect] at heffect
    split at heffect
    · cases heffect
    cases heffect
    simp only [scalarStep]
    split
    · trivial
    refine (safe_popMany hpops).bind fun r hr => safe_fastCallFunc.bind fun _ _ => (safe_scalarOf _ _).bind fun _ _ => ?_
    exact ⟨by simp [flow], by simp [hr.2]⟩
  | callDefined func payload n =>
    simp only [scalarStackEffect] at heffect
    split at heffect
    · cases heffect
    cases heffect
    refine (safe_popMany hpops).bind fun r hr => (safe_runHost _).bind fun _ _ => ?_
    refine (safe_definedScalar _).bind fun _ _ => (safe_scalarOf _ _).bind fun _ _ => ?_
    exact ⟨by simp [flow], by simp [hr.2]⟩
  | jump =>
    cases heffect
    exact ⟨by simp [flow], rfl⟩
  | jumpIfFalse | jumpIfTrue =>
    cases heffect
    refine (safe_scalarPop1 hpops).bind fun r hr => ?_
    refine ⟨?_, by simp [hr.2]⟩
    simp only [hr.1]
    split <;> simp [flow]
  | ret =>
    obtain ⟨d, hstack⟩ := List.length_eq_one_iff.mp (hret rfl)
    simp only [scalarStep, hstack]
    rfl
  | getField | callProducerConstField => trivial
  | _ => cases heffect

end

/-! ### The bool executor -/

def valueKind : Value D → ResultKind
  | .number _ => .double
  | .bool _ => .bool
  | _ => .unknown

def countedKind : Instr D → ResultKind
  | .callFunc func _ _ => if func.valueFunc.isSome && func.returnType = some .bool then .bool else .double
  | .callDefined func _ _ => if func.returnType = some .bool then .bool else .double
  | _ => .double

def pushedAs (kind : ResultKind) (numbers bools : Nat) : Nat × Nat :=
  match kind with
  | .bool => (numbers, bools + 1)
  | .double | .unknown => (numbers + 1, bools)

def callResult [Double D] (host : Host S D) (m : BoolMachine S D) (instr : Instr D) : Option (Except Fault (Value D)) :=
  match instr with
  | .callFunc func payload n => some ((·.1) <$> fastCallFunc host m.host func payload (m.nstack.take n).reverse)
  | .callDefined func payload n => some do
    let (memo, s) ← runHost m.host (host.memoGet func payload)
    match memo with
    | some v => return v
    | none =>
      let (v, _) ← runHost s (host.callDefinedScalar func payload ((m.nstack.take n).reverse.map .number))
      return v
  | instr => (nativeCall instr).map fun (func, payload, n, f) =>
    (·.1) <$> fastNative host m.host func payload f (m.nstack.take n).reverse

/-- A call at the machine comes to a value of the kind counted for it, or to one that is no scalar. -/
def Counted [Double D] (host : Host S D) (m : BoolMachine S D) (instr : Instr D) : Prop :=
  ∀ v, callResult host m instr = some (.ok v) → valueKind v = .unknown ∨ valueKind v = countedKind instr

theorem counted_of_no_call [Double D] {host : Host S D} {m : BoolMachine S D} {instr : Instr D}
    (h : callResult host m instr = none) : Counted host m instr := by
  intro v hv
  rw [h] at hv
  cases hv

def BoolGoes (m : BoolMachine S D) (instr : Instr D) (after : Nat × Nat) : BoolStep S D → Prop
  | .next m' => m'.ip ∈ flow instr m.ip ∧ (m'.nstack.length, m'.bstack.length) = after
  | .halt _ _ => instr = .ret

section
variable {m : BoolMachine S D}

theorem safe_boolPop1 (h : 1 ≤ m.nstack.length) :
    Safe m.pop1 fun r => r.2.ip = m.ip ∧ r.2.bstack = m.bstack ∧ r.2.nstack.length = m.nstack.length - 1 := by
  unfold BoolMachine.pop1
  split
  · rename_i hs
    exact ⟨rfl, rfl, by simp [hs]⟩
  · rename_i hs
    simp [hs] at h

theorem safe_boolPop2 (h : 2 ≤ m.nstack.length) :
    Safe m.pop2 fun r => r.2.2.ip = m.ip ∧ r.2.2.bstack = m.bstack ∧ r.2.2.nstack.length = m.nstack.length - 2 := by
  unfold BoolMachine.pop2
  split
  · rename_i hs
    exact ⟨rfl, rfl, by simp [hs]⟩
  · rename_i hs
    match hm : m.nstack, h with
    | a :: b :: rest, _ => exact absurd hm (hs a b rest)

theorem safe_popBool (h : 1 ≤ m.bstack.length) :
    Safe m.popBool fun r => r.2.ip = m.ip ∧ r.2.nstack = m.nstack ∧ r.2.bstack.length = m.bstack.length - 1 := by
  unfold BoolMachine.popBool
  split
  · rename_i hs
    exact ⟨rfl, rfl, by simp [hs]⟩
  · rename_i hs
    simp [hs] at h

variable [Double D] {host : Host S D} {locals : List D} {instr : Instr D} {after : Nat × Nat}

theorem safe_pushValue {m' : BoolMachine S D} {n : Nat} {v : Value D} (message : String) (hip : m'.ip = m.ip)
    (hnstack : m'.nstack = m.nstack.drop n) (hbstack : m'.bstack = m.bstack) (hflow : flow instr m.ip = [m.ip + 1])
    (hafter : after = pushedAs (countedKind instr) (m.nstack.length - n) m.bstack.length)
    (hresult : callResult host m instr = some (.ok v)) :
    Safe (m'.pushValue message v) fun s => Counted host m instr → BoolGoes m instr after s := by
  have hgoes : Counted host m instr → valueKind v ≠ .unknown →
      after = pushedAs (valueKind v) (m.nstack.length - n) m.bstack.length := by
    intro hcounted hscalar
    rw [(hcounted v hresult).resolve_left hscalar, hafter]
  cases v with
  | number d =>
    intro hcounted
    refine ⟨by simp [hflow, hip], ?_⟩
    rw [hgoes hcounted (by simp [valueKind])]
    simp [valueKind, pushedAs, hnstack, hbstack]
  | bool b =>
    intro hcounted
    refine ⟨by simp [hflow, hip], ?_⟩
    rw [hgoes hcounted (by simp [valueKind])]
    simp [valueKind, pushedAs, hnstack, hbstack]
  | _ => trivial

theorem safe_boolCall {act : Except Fault (Value D × S)} {n : Nat} (message : String) (hact : Safe act fun _ => True)
    (hflow : flow instr m.ip = [m.ip + 1])
    (hafter : after = pushedAs (countedKind instr) (m.nstack.length - n) m.bstack.length)
    (hresult : callResult host m instr = some ((·.1) <$> act)) :
    Safe (act >>= fun r => BoolMachine.pushValue { m with nstack := m.nstack.drop n, host := r.2 } message r.1)
      fun s => Counted host m instr → BoolGoes m instr after s := by
  cases act with
  | error f => cases f <;> exact hact
  | ok r => exact safe_pushValue message rfl rfl rfl hflow hafter hresult

theorem popMany_eq {α : Type} {n : Nat} {stack : List α} (h : n ≤ stack.length) :
    popMany n stack = .ok ((stack.take n).reverse, stack.drop n) := by
  unfold popMany
  rw [if_neg (by omega)]

theorem boolStep_safe (h : boolDepthEffect instr (m.nstack.length, m.bstack.length) = some after) :
    Safe (boolStep host locals m instr) fun s => Counted host m instr → BoolGoes m instr after s := by
  obtain ⟨heffect, -, -⟩ := boolDepthEffect_eq_some h
  clear h
  cases instr with
  | pushConst | pushBool =>
    cases heffect
    exact fun _ => ⟨by simp [flow], rfl⟩
  | loadLocal | loadLocalSquare =>
    cases heffect
    simp only [boolStep]
    split
    · exact fun _ => ⟨by simp [flow], rfl⟩
    · trivial
  | loadVar | loadVarSquare | loadParam | loadParamSquare =>
    cases heffect
    exact (safe_loadScalar _ _).bind fun r _ _ => ⟨by simp [flow], rfl⟩
  | arith op =>
    obtain ⟨hn, hafter⟩ := Option.ite_none_left_eq_some.mp heffect
    cases hafter
    refine (safe_boolPop2 (Nat.not_lt.mp hn)).bind fun r hr => (safe_fastArith op _ _).bind fun _ _ _ => ?_
    refine ⟨by simp [flow, hr.1], ?_⟩
    simp only [List.length_cons, hr.2.1, hr.2.2, Prod.mk.injEq, and_true]
    omega
  | cmp op =>
    obtain ⟨hn, hafter⟩ := Option.ite_none_left_eq_some.mp heffect
    cases hafter
    refine (safe_boolPop2 (Nat.not_lt.mp hn)).bind fun r hr _ => ?_
    exact ⟨by simp [flow, hr.1], by simp [hr.2.1, hr.2.2]⟩
  | square | intrinsic =>
    obtain ⟨hn, hafter⟩ := Option.ite_none_left_eq_some.mp heffect
    cases hafter
    refine (safe_boolPop1 (Nat.not_lt.mp hn)).bind fun r hr _ => ?_
    refine ⟨by simp [flow, hr.1], ?_⟩
    simp only [List.length_cons, hr.2.1, hr.2.2, Prod.mk.injEq, and_true]
    omega
  | not =>
    obtain ⟨hn, hafter⟩ := Option.ite_none_left_eq_some.mp heffect
    cases hafter
    refine (safe_popBool (Nat.not_lt.mp hn)).bind fun r hr _ => ?_
    refine ⟨by simp [flow, hr.1], ?_⟩
    simp only [List.length_cons, hr.2.1, hr.2.2, Prod.mk.injEq, true_and]
    omega
  | clamp =>
    obtain ⟨hn, hafter⟩ := Option.ite_none_left_eq_some.mp heffect
    cases hafter
    refine (safe_boolPop2 (by omega)).bind fun r hr => ?_
    have hlen : 1 ≤ r.2.2.nstack.length := by
      rw [hr.2.2]
      omega
    refine (safe_boolPop1 hlen).bind fun r₁ hr₁ _ => ?_
    refine ⟨by simp [flow, hr.1, hr₁.1], ?_⟩
    simp only [List.length_cons, hr.2.1, hr.2.2, hr₁.2.1, hr₁.2.2, Prod.mk.injEq, and_true]
    omega
  | callUnary func f payload | callBinary func f payload | callTernary func f payload =>
    obtain ⟨hn, hafter⟩ := Option.ite_none_left_eq_some.mp heffect
    cases hafter
    simp only [boolStep, nativeCall, popMany_eq (Nat.not_lt.mp hn)]
    refine safe_boolCall _ safe_fastNative rfl ?_ rfl
    simp only [countedKind, pushedAs, Prod.mk.injEq, and_true]
    omega
  | callFunc func payload n =>
    simp only [boolFastStackEffect] at heffect
    split at heffect
    · cases heffect
    rename_i hn
    simp only [Bool.or_eq_true, decide_eq_true_eq, not_or, Nat.not_lt] at hn
    simp only [boolStep, popMany_eq hn.2]
    split
    · trivial
    refine safe_boolCall _ safe_fastCallFunc rfl ?_ rfl
    split at heffect
    · rename_i hbool
      cases heffect
      simp only [countedKind, if_pos hbool, pushedAs]
    · rename_i hbool
      split at heffect
      · cases heffect
        simp only [countedKind, if_neg hbool, pushedAs]
      · cases heffect
  | callDefined func payload n =>
    simp only [boolFastStackEffect] at heffect
    split at heffect
    · cases heffect
    rename_i hn
    simp only [Bool.or_eq_true, decide_eq_true_eq, not_or, Nat.not_lt] at hn
    have hafter : after = pushedAs (countedKind (.callDefined func payload n)) (m.nstack.length - n) m.bstack.length := by
      split at heffect
      · rename_i hbool
        cases heffect
        simp only [countedKind, hbool, if_true, pushedAs]
      · rename_i hnumber
        cases heffect
        simp [countedKind, hnumber, pushedAs]
      · cases heffect
    have hmemo := safe_runHost (s := m.host) (host.memoGet func payload)
    simp only [boolStep]
    cases hget : runHost m.host (host.memoGet func payload) with
    | error f =>
      rw [hget] at hmemo
      cases f <;> exact hmemo
    | ok r =>
      obtain ⟨memo, s⟩ := r
      show Safe (popMany n m.nstack >>= _) _
      rw [popMany_eq hn.2]
      cases memo with
      | some v =>
        refine safe_pushValue _ rfl rfl rfl rfl hafter ?_
        simp only [callResult, hget]
        rfl
      | none =>
        have hcall := safe_runHost (s := s) (host.callDefinedScalar func payload ((m.nstack.take n).reverse.map .number))
        show Safe (runHost s (host.callDefinedScalar func payload ((m.nstack.take n).reverse.map .number)) >>= _) _
        cases hdefined : runHost s (host.callDefinedScalar func payload ((m.nstack.take n).reverse.map .number)) with
        | error f =>
          rw [hdefined] at hcall
          cases f <;> exact hcall
        | ok r =>
          obtain ⟨v, s₁⟩ := r
          refine (safe_definedScalar v).bind fun w hw => (safe_runHost _).bind fun _ _ => ?_
          subst hw
          refine safe_pushValue _ rfl rfl rfl rfl hafter ?_
          simp only [callResult, hget]
          show some (runHost s _ >>= _) = _
          rw [hdefined]
          rfl
  | jump =>
    cases heffect
    exact fun _ => ⟨by simp [flow], rfl⟩
  | jumpIfFalse | jumpIfTrue =>
    obtain ⟨hn, hafter⟩ := Option.ite_none_left_eq_some.mp heffect
    cases hafter
    refine (safe_popBool (Nat.not_lt.mp hn)).bind fun r hr _ => ?_
    refine ⟨?_, by simp [hr.2.1, hr.2.2]⟩
    simp only [hr.1]
    split <;> simp [flow]
  | ret =>
    simp only [boolFastStackEffect] at heffect
    split at heffect
    · rename_i hdepth
      obtain ⟨b, hb⟩ := List.length_eq_one_iff.mp hdepth.2
      simp only [boolStep, List.length_eq_zero_iff.mp hdepth.1, hb]
      exact fun _ => rfl
    · cases heffect
  | _ => cases heffect

end

section
variable [Double D]

def ScalarNext (program : Program D) (host : Host S D) (m m' : ScalarMachine S D) : Prop :=
  ∃ instr, program[m.ip]? = some instr ∧ scalarStep host m instr = .ok (.next m')

/-- The scalar executor is inside the code and its stack, takes no operand from an empty stack, and returns with
    exactly one value. -/
structure ScalarSafe (program : Program D) (host : Host S D) (m : ScalarMachine S D) : Prop where
  inside : m.ip < program.length
  room : m.stack.length ≤ stackCapacity
  operands : ∀ instr, program[m.ip]? = some instr → scalarStep host m instr ≠ .error .stackUnderflow
  returns : program[m.ip]? = some .ret → ∃ d, m.stack = [d] ∧ scalarStep host m .ret = .ok (.halt d m.host)

/-- The bool executor goes from one instruction to the next, and a call comes to a value as it is counted. -/
def BoolNext (program : Program D) (host : Host S D) (locals : List D) (m m' : BoolMachine S D) : Prop :=
  ∃ instr, program[m.ip]? = some instr ∧ Counted host m instr ∧ boolStep host locals m instr = .ok (.next m')

/-- The bool executor is inside the code and its stacks, finds every operand on the stack of its kind, and returns
    exactly one bool with no number left. -/
structure BoolSafe (program : Program D) (host : Host S D) (locals : List D) (m : BoolMachine S D) : Prop where
  inside : m.ip < program.length
  numbers : m.nstack.length ≤ stackCapacity
  bools : m.bstack.length ≤ stackCapacity
  operands : ∀ instr, program[m.ip]? = some instr → boolStep host locals m instr ≠ .error .stackUnderflow
  returns : program[m.ip]? = some .ret →
    m.nstack = [] ∧ ∃ b, m.bstack = [b] ∧ boolStep host locals m .ret = .ok (.halt b m.host)

variable {program : Program D} {host : Host S D} {locals : List D}

omit [Double D] in
theorem Safe.ne_underflow {α : Type} {r : Except Fault α} {Q : α → Prop} (h : Safe r Q) : r ≠ .error .stackUnderflow := by
  rintro rfl
  exact h

theorem scalarSafe_of_validate (hvalid : validateScalarFastProgram program = true) (s : S) {m : ScalarMachine S D}
    (hrun : Relation.ReflTransGen (ScalarNext program host) { locals, host := s } m) : ScalarSafe program host m := by
  unfold validateScalarFastProgram at hvalid
  obtain ⟨seen, hseen⟩ := Worklist.accepts_consistent (Bool.and_eq_true_iff.mp hvalid).2
  have hnext : ∀ (m m' : ScalarMachine S D) instr after, program[m.ip]? = some instr →
      scalarDepthEffect instr m.stack.length = some after → ScalarNext program host m m' →
      m'.ip ∈ flow instr m.ip ∧ m'.stack.length = after := by
    rintro m m' instr after hinstr heffect ⟨instr', hinstr', hstep⟩
    obtain rfl := Option.some.inj (hinstr.symm.trans hinstr')
    have hsafe : Safe (scalarStep host m instr) (ScalarGoes m instr after) := scalarStep_safe heffect
    rw [hstep] at hsafe
    exact hsafe
  obtain ⟨hm, hdepth⟩ := hseen.run (fun m => m.ip) (fun m => m.stack.length) hnext hseen.start hrun
  obtain ⟨instr, after, hinstr, heffect, -⟩ := hseen.next _ _ hm
  change scalarDepthEffect instr m.stack.length = some after at heffect
  refine ⟨(List.getElem?_eq_some_iff.mp hinstr).1, ?_, ?_, ?_⟩
  · rcases hdepth with hstart | ⟨instr', state, heffect'⟩
    · rw [hstart]
      exact Nat.zero_le _
    · obtain ⟨-, -, -, -, -, hroom, -⟩ := scalarDepthEffect_eq_some heffect'
      exact hroom
  · intro instr' hinstr'
    obtain rfl := Option.some.inj (hinstr.symm.trans hinstr')
    exact (scalarStep_safe (m := m) heffect).ne_underflow
  · intro hret
    obtain rfl := Option.some.inj (hinstr.symm.trans hret)
    obtain ⟨-, -, -, -, -, -, hone⟩ := scalarDepthEffect_eq_some heffect
    obtain ⟨d, hstack⟩ := List.length_eq_one_iff.mp (hone rfl)
    exact ⟨d, hstack, by simp only [scalarStep, hstack]⟩

theorem boolSafe_of_validate (hvalid : validateBoolFastProgram program = true) (s : S) {m : BoolMachine S D}
    (hrun : Relation.ReflTransGen (BoolNext program host locals) { host := s } m) : BoolSafe program host locals m := by
  unfold validateBoolFastProgram at hvalid
  obtain ⟨seen, hseen⟩ := Worklist.accepts_consistent (Bool.and_eq_true_iff.mp hvalid).2
  have hnext : ∀ (m m' : BoolMachine S D) instr after, program[m.ip]? = some instr →
      boolDepthEffect instr (m.nstack.length, m.bstack.length) = some after → BoolNext program host locals m m' →
      m'.ip ∈ flow instr m.ip ∧ (m'.nstack.length, m'.bstack.length) = after := by
    rintro m m' instr after hinstr heffect ⟨instr', hinstr', hcounted, hstep⟩
    obtain rfl := Option.some.inj (hinstr.symm.trans hinstr')
    have hsafe : Safe (boolStep host locals m instr) fun s => Counted host m instr → BoolGoes m instr after s :=
      boolStep_safe heffect
    rw [hstep] at hsafe
    exact hsafe hcounted
  obtain ⟨hm, hdepth⟩ := hseen.run (fun m => m.ip) (fun m => (m.nstack.length, m.bstack.length)) hnext hseen.start hrun
  obtain ⟨instr, after, hinstr, heffect, -⟩ := hseen.next _ _ hm
  have hroom : m.nstack.length ≤ stackCapacity ∧ m.bstack.length ≤ stackCapacity := by
    rcases hdepth with hstart | ⟨instr', state, heffect'⟩
    · obtain ⟨hnumbers, hbools⟩ := Prod.mk.inj hstart
      rw [hnumbers, hbools]
      exact ⟨Nat.zero_le _, Nat.zero_le _⟩
    · exact (boolDepthEffect_eq_some heffect').2
  refine ⟨(List.getElem?_eq_some_iff.mp hinstr).1, hroom.1, hroom.2, ?_, ?_⟩
  · intro instr' hinstr'
    obtain rfl := Option.some.inj (hinstr.symm.trans hinstr')
    exact (boolStep_safe (m := m) heffect).ne_underflow
  · intro hret
    obtain rfl := Option.some.inj (hinstr.symm.trans hret)
    obtain ⟨hdepths, -⟩ := Option.ite_none_right_eq_some.mp (boolDepthEffect_eq_some heffect).1
    have hnstack := List.length_eq_zero_iff.mp hdepths.1
    obtain ⟨b, hbstack⟩ := List.length_eq_one_iff.mp hdepths.2
    exact ⟨hnstack, b, hbstack, by simp only [boolStep, hnstack, hbstack]⟩

/-- The validators are sound. Every machine that the scalar executor reaches on a program its validator accepts is
    safe, and so is every machine that the bool executor reaches on a program its validator accepts, as long as each
    call on the way came to a value of the kind the validator counts for it. -/
theorem validated_fast_safe (program : Program D) :
    (validateScalarFastProgram program = true → ∀ (S : Type) (host : Host S D) (locals : List D) (s : S)
      (m : ScalarMachine S D), Relation.ReflTransGen (ScalarNext program host) { locals, host := s } m →
        ScalarSafe program host m) ∧
    (validateBoolFastProgram program = true → ∀ (S : Type) (host : Host S D) (locals : List D) (s : S)
      (m : BoolMachine S D), Relation.ReflTransGen (BoolNext program host locals) { host := s } m →
        BoolSafe program host locals m) :=
  ⟨fun hvalid _ _ _ s _ hrun => scalarSafe_of_validate hvalid s hrun,
    fun hvalid _ _ _ s _ hrun => boolSafe_of_validate hvalid s hrun⟩

end

theorem validated_fast_safe_comparison : BoolSafe (D := Int) [.pushConst 1, .pushConst 2, .cmp .lt, .ret]
    (contextHost {} 1) [] { ip := 3, bstack := [true], host := [] } := by
  refine (validated_fast_safe _).2 (by decide) _ _ _ [] _ ?_
  refine .head (b := { ip := 1, nstack := [1], host := [] }) ⟨.pushConst 1, rfl, counted_of_no_call rfl, rfl⟩ ?_
  refine .head (b := { ip := 2, nstack := [2, 1], host := [] }) ⟨.pushConst 2, rfl, counted_of_no_call rfl, rfl⟩ ?_
  exact .single ⟨.cmp .lt, rfl, counted_of_no_call rfl, rfl⟩

/-- A number above a bool: the program of `NOT` on the bool under it. -/
def notUnderNumber : Program Int :=
  [.pushBool 1, .pushConst 5, .not, .pushConst 5, .cmp .eq, .jumpIfFalse 6, .ret]

/-- A value function without a declared type that returns a bool, and a comparison of its result. -/
def undeclaredBool : Program Int :=
  [.callFunc { name := "f", valueFunc := some fun _ => .bool true } (.call "f" [] []) 0, .pushConst 0, .cmp .eq, .ret]

/-- The order of numbers and bools is not checked: `NOT` reads the bool although a number was pushed after it, where
    the typed executor reports a mismatch. Nor is the kind of an undeclared result, which is counted as a number. -/
theorem order_and_kind_unchecked :
    (validateBoolFastProgram notUnderNumber = true ∧
      Relation.ReflTransGen (BoolNext notUnderNumber (contextHost {} 1) []) { host := [] }
        { ip := 2, nstack := [(5 : Int)], bstack := [true], host := [] } ∧
      boolStep (contextHost {} 1) [] { ip := 2, nstack := [(5 : Int)], bstack := [true], host := [] } Instr.not =
        .ok (.next { ip := 3, nstack := [5], bstack := [false], host := [] }) ∧
      execTyped notUnderNumber (contextHost {} 1) [] [] =
        some (.error (.raised ⟨.typeMismatch, "Logical not requires bool operand"⟩))) ∧
    (validateBoolFastProgram undeclaredBool = true ∧
      execBoolFast undeclaredBool (contextHost {} 1) [] [] = some (.error .stackUnderflow)) := by
  refine ⟨⟨by decide, ?_, rfl, rfl⟩, by decide, rfl⟩
  have hfirst : BoolNext notUnderNumber (contextHost {} 1) [] { host := [] }
      { ip := 1, nstack := [], bstack := [true], host := [] } :=
    ⟨.pushBool 1, rfl, counted_of_no_call rfl, rfl⟩
  have hsecond : BoolNext notUnderNumber (contextHost {} 1) [] { ip := 1, nstack := [], bstack := [true], host := [] }
      { ip := 2, nstack := [(5 : Int)], bstack := [true], host := [] } :=
    ⟨.pushConst 5, rfl, counted_of_no_call rfl, rfl⟩
  exact .tail (.single hfirst) hsecond

end Cxpr.Ir
