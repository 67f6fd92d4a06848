import Cxpr.Ir.Fast
import Cxpr.Ir.Simulation

/-! The fast executors go in step with the typed one, as long as the code holds operators only, the validator accepted
    it and all names are numbers. -/

namespace Cxpr.Ir
open Eval Worklist
variable {S D : Type} [Double D]

omit [Double D] in
def Operator (var param : String → Prop) : Instr D → Prop
  | .loadVar name _ | .loadVarSquare name => var name
  | .loadParam name | .loadParamSquare name => param name
  | .pushConst _ | .pushBool _ | .pushString _ | .buildArray _ | .arith _ | .square | .cmp _ | .not | .intrinsic _
  | .callAst _ | .jump _ | .jumpIfFalse _ | .jumpIfTrue _ | .lookbackPush _ | .lookbackPop | .lookbackResolve _ _ | .ret
  | .index => True
  | _ => False

structure Numbers (host : Host S D) (H : Set S) (var param : String → Prop) : Prop where
  var : ∀ s ∈ H, ∀ ip name, var name → ∃ x : Option D,
    host.loadVariableTyped ip name s = .ok (x.map .number, s) ∧ host.lookupCachedVariable ip name s = .ok (x, s)
  param : ∀ s ∈ H, ∀ ip name, param name → ∃ x : Option D,
    host.loadParam ip name s = .ok (x.map .number, s) ∧ host.lookupCachedParam ip name s = .ok (x, s)

structure Scalars (H : Set S) (m : Machine S D) : Prop where
  lookback : m.lookbackDepth = 0
  stack : ∀ v ∈ m.stack, v.isScalar = true
  host : m.host ∈ H

/-! ### What one instruction does -/

def Loads (host : Host S D) (m : Machine S D) (v : Value D) : Instr D → Prop
  | .pushConst d => v = .number d
  | .pushBool d => v = .bool (Double.ne d Double.zero)
  | .loadVar name _ => ∃ d, host.lookupCachedVariable m.ip name m.host = .ok (some d, m.host) ∧ v = .number d
  | .loadVarSquare name =>
    ∃ d, host.lookupCachedVariable m.ip name m.host = .ok (some d, m.host) ∧ v = .number (Double.mul d d)
  | .loadParam name => ∃ d, host.lookupCachedParam m.ip name m.host = .ok (some d, m.host) ∧ v = .number d
  | .loadParamSquare name =>
    ∃ d, host.lookupCachedParam m.ip name m.host = .ok (some d, m.host) ∧ v = .number (Double.mul d d)
  | _ => False

inductive Moves (host : Host S D) (m : Machine S D) : Instr D → List (Value D) → List (Value D) → Prop
  | load {instr : Instr D} {v : Value D} {s : List (Value D)} (h : Loads host m v instr) : Moves host m instr s (v :: s)
  | arith {op : Arith} {a b d : D} {s : List (Value D)} (h : fastArith op a b = .ok d) :
      Moves host m (.arith op) (.number b :: .number a :: s) (.number d :: s)
  | cmpNumber {op : Cmp} {a b : D} {s : List (Value D)} :
      Moves host m (.cmp op) (.number b :: .number a :: s) (.bool (fastCmp op a b) :: s)
  | cmpBool {op : Cmp} {a b : Bool} {s : List (Value D)} :
      Moves host m (.cmp op) (.bool b :: .bool a :: s) (.bool (fastCmp op (Double.ofBool a : D) (Double.ofBool b)) :: s)
  | square {d : D} {s : List (Value D)} : Moves host m .square (.number d :: s) (.number (Double.mul d d) :: s)
  | not {c : Bool} {s : List (Value D)} : Moves host m .not (.bool c :: s) (.bool (!c) :: s)
  | intrinsic {op : Intrinsic} {d : D} {s : List (Value D)} :
      Moves host m (.intrinsic op) (.number d :: s) (.number (fastIntrinsic op d) :: s)

section
variable {host : Host S D} {H : Set S} {var param : String → Prop} {program : Program D} {m m' : Machine S D}
  {instr : Instr D} {v : Value D} {st : Step S D}

omit [Double D] in
theorem pushNext_eq_ok (h : m.pushNext v = .ok st) :
    st = .next { m with ip := m.ip + 1, stack := v :: m.stack } := by
  unfold Machine.pushNext Machine.push at h
  split at h
  · cases h
  · cases h
    rfl

omit [Double D] in
theorem pop1_eq_ok {r : Value D × Machine S D} (h : m.pop1 = .ok r) :
    ∃ s, m.stack = r.1 :: s ∧ r.2 = { m with stack := s } := by
  unfold Machine.pop1 at h
  split at h
  · rename_i hs
    cases h
    exact ⟨_, hs, rfl⟩
  · cases h

omit [Double D] in
theorem pop2_eq_ok {r : Value D × Value D × Machine S D} (h : m.pop2 = .ok r) :
    ∃ s, m.stack = r.2.1 :: r.1 :: s ∧ r.2.2 = { m with stack := s } := by
  unfold Machine.pop2 at h
  split at h
  · rename_i hs
    cases h
    exact ⟨_, hs, rfl⟩
  · cases h

omit [Double D] in
theorem found_eq_ok {x : Option D} {eff : Eff S (Option (Value D))} {message : String} {r : Value D × Machine S D}
    (heff : eff m.host = .ok (x.map .number, m.host)) (h : Host.run m (found eff message) = .ok r) :
    ∃ d, x = some d ∧ r = (.number d, m) := by
  cases x with
  | none =>
    rw [run_found_none heff] at h
    cases h
  | some d =>
    rw [run_found heff] at h
    exact ⟨d, rfl, (Except.ok.inj h).symm⟩

theorem execArith_eq_ok {op : Arith} {a b : Value D} (ha : a.isScalar = true) (hb : b.isScalar = true)
    (h : execArith op a b = .ok v) : ∃ x y d, a = .number x ∧ b = .number y ∧ v = .number d ∧ fastArith op x y = .ok d := by
  cases a with
  | number x =>
    cases b with
    | number y =>
      cases op with
      | div | mod =>
        simp only [execArith] at h
        split at h
        · cases h
        · rename_i hzero
          cases h
          exact ⟨x, y, _, rfl, rfl, rfl, if_neg hzero⟩
      | _ =>
        cases h
        exact ⟨x, y, _, rfl, rfl, rfl, rfl⟩
    | bool y => cases op <;> cases h
    | _ => cases hb
  | bool x =>
    cases b with
    | number y | bool y => cases op <;> cases h
    | _ => cases hb
  | _ => cases ha

theorem execCmp_eq_ok {op : Cmp} {a b : Value D} (ha : a.isScalar = true) (hb : b.isScalar = true)
    (h : execCmp op a b = .ok v) :
    (∃ x y, a = .number x ∧ b = .number y ∧ v = .bool (fastCmp op x y)) ∨
    ∃ x y, a = .bool x ∧ b = .bool y ∧ v = .bool (fastCmp op (Double.ofBool x : D) (Double.ofBool y)) := by
  cases a with
  | number x =>
    cases b with
    | number y => cases op <;> cases h <;> exact .inl ⟨x, y, rfl, rfl, rfl⟩
    | bool y => cases op <;> cases h
    | _ => cases hb
  | bool x =>
    cases b with
    | number y => cases op <;> cases h
    | bool y =>
      cases op with
      | eq | neq =>
        cases h
        exact .inr ⟨x, y, rfl, rfl, by simp [fastCmp, Double.ne]⟩
      | _ => cases h
    | _ => cases hb
  | _ => cases ha

inductive Goes (host : Host S D) (m : Machine S D) : Instr D → Step S D → Prop
  | next {instr : Instr D} {s : List (Value D)} (h : Moves host m instr m.stack s) :
      Goes host m instr (.next { m with ip := m.ip + 1, stack := s })
  | jump (t : Nat) : Goes host m (.jump t) (.next { m with ip := t })
  | jumpIfFalse (t : Nat) {c : Bool} {s : List (Value D)} (h : m.stack = .bool c :: s) :
      Goes host m (.jumpIfFalse t) (.next { m with stack := s, ip := if c then m.ip + 1 else t })
  | jumpIfTrue (t : Nat) {c : Bool} {s : List (Value D)} (h : m.stack = .bool c :: s) :
      Goes host m (.jumpIfTrue t) (.next { m with stack := s, ip := if c then t else m.ip + 1 })
  | ret {v : Value D} (h : m.stack = [v]) : Goes host m .ret (.halt v m.host)

theorem goes_pop1 {exec : Value D → Except Fault (Value D)} (hm : Scalars H m)
    (h : (m.pop1 >>= fun x => exec x.1 >>= fun v => x.2.pushNext v) = .ok st)
    (hmoves : ∀ a v s, a.isScalar = true → exec a = .ok v → Moves host m instr (a :: s) (v :: s)) :
    Goes host m instr st := by
  obtain ⟨⟨a, m₁⟩, hpop, h⟩ := bind_eq_ok.mp h
  obtain ⟨v, hexec, h⟩ := bind_eq_ok.mp h
  obtain ⟨s, hs, hm₁⟩ := pop1_eq_ok hpop
  simp only at hs hm₁
  subst hm₁
  rw [pushNext_eq_ok h]
  refine .next ?_
  rw [hs]
  exact hmoves a v s (hm.stack a (by simp [hs])) hexec

theorem goes_pop2 {exec : Value D → Value D → Except Fault (Value D)} (hm : Scalars H m)
    (h : (m.pop2 >>= fun x => exec x.1 x.2.1 >>= fun v => x.2.2.pushNext v) = .ok st)
    (hmoves : ∀ a b v s, a.isScalar = true → b.isScalar = true → exec a b = .ok v →
      Moves host m instr (b :: a :: s) (v :: s)) : Goes host m instr st := by
  obtain ⟨⟨a, b, m₁⟩, hpop, h⟩ := bind_eq_ok.mp h
  obtain ⟨v, hexec, h⟩ := bind_eq_ok.mp h
  obtain ⟨s, hs, hm₁⟩ := pop2_eq_ok hpop
  simp only at hs hm₁
  subst hm₁
  rw [pushNext_eq_ok h]
  refine .next ?_
  rw [hs]
  exact hmoves a b v s (hm.stack a (by simp [hs])) (hm.stack b (by simp [hs])) hexec

theorem step_goes (hhost : Numbers host H var param) (hinstr : Operator var param instr)
    (hfast : (scalarStackEffect instr).isSome = true) (hm : Scalars H m)
    (h : step program host [] m instr = .ok st) : Goes host m instr st := by
  cases instr with
  | pushConst d =>
    rw [pushNext_eq_ok h]
    exact .next (.load rfl)
  | pushBool d =>
    rw [pushNext_eq_ok h]
    exact .next (.load rfl)
  | loadVar name payload =>
    obtain ⟨x, htyped, hscalar⟩ := hhost.var m.host hm.host m.ip name hinstr
    simp only [step, loadValue, hm.lookback, Nat.lt_irrefl, if_false] at h
    obtain ⟨r, hr, h⟩ := bind_eq_ok.mp h
    obtain ⟨d, rfl, rfl⟩ := found_eq_ok htyped hr
    rw [pushNext_eq_ok h]
    exact .next (.load ⟨d, hscalar, rfl⟩)
  | loadVarSquare name =>
    obtain ⟨x, htyped, hscalar⟩ := hhost.var m.host hm.host m.ip name hinstr
    simp only [step, loadValue, hm.lookback, Nat.lt_irrefl, if_false] at h
    obtain ⟨r, hr, h⟩ := bind_eq_ok.mp h
    obtain ⟨d, rfl, rfl⟩ := found_eq_ok htyped hr
    rw [pushNext_eq_ok (v := .number (Double.mul d d)) h]
    exact .next (.load ⟨d, hscalar, rfl⟩)
  | loadParam name =>
    obtain ⟨x, htyped, hscalar⟩ := hhost.param m.host hm.host m.ip name hinstr
    obtain ⟨r, hr, h⟩ := bind_eq_ok.mp h
    obtain ⟨d, rfl, rfl⟩ := found_eq_ok htyped hr
    rw [pushNext_eq_ok h]
    exact .next (.load ⟨d, hscalar, rfl⟩)
  | loadParamSquare name =>
    obtain ⟨x, -, hscalar⟩ := hhost.param m.host hm.host m.ip name hinstr
    obtain ⟨r, hr, h⟩ := bind_eq_ok.mp h
    cases x with
    | none =>
      rw [run_found_none hscalar] at hr
      cases hr
    | some d =>
      rw [run_found hscalar] at hr
      obtain rfl := Except.ok.inj hr
      rw [pushNext_eq_ok h]
      exact .next (.load ⟨d, hscalar, rfl⟩)
  | arith op =>
    refine goes_pop2 hm h fun a b v s ha hb hexec => ?_
    obtain ⟨x, y, d, rfl, rfl, rfl, hfast⟩ := execArith_eq_ok ha hb hexec
    exact .arith hfast
  | cmp op =>
    refine goes_pop2 hm h fun a b v s ha hb hexec => ?_
    rcases execCmp_eq_ok ha hb hexec with ⟨x, y, rfl, rfl, rfl⟩ | ⟨x, y, rfl, rfl, rfl⟩
    · exact .cmpNumber
    · exact .cmpBool
  | square =>
    refine goes_pop1 hm h fun a v s ha hexec => ?_
    cases a <;> cases hexec
    exact .square
  | not =>
    rw [step_not] at h
    refine goes_pop1 hm h fun a v s ha hexec => ?_
    cases a <;> cases hexec
    exact .not
  | intrinsic op =>
    refine goes_pop1 hm h fun a v s ha hexec => ?_
    cases a with
    | number d => cases op <;> cases hexec <;> exact .intrinsic
    | bool c => cases op <;> cases hexec
    | _ => cases ha
  | jump t =>
    cases h
    exact .jump t
  | jumpIfFalse t =>
    obtain ⟨⟨a, m₁⟩, hpop, h⟩ := bind_eq_ok.mp h
    obtain ⟨s, hs, hm₁⟩ := pop1_eq_ok hpop
    simp only at hs hm₁
    subst hm₁
    cases a <;> cases h
    exact .jumpIfFalse t hs
  | jumpIfTrue t =>
    obtain ⟨⟨a, m₁⟩, hpop, h⟩ := bind_eq_ok.mp h
    obtain ⟨s, hs, hm₁⟩ := pop1_eq_ok hpop
    simp only at hs hm₁
    subst hm₁
    cases a <;> cases h
    exact .jumpIfTrue t hs
  | ret =>
    obtain ⟨⟨a, m₁⟩, hpop, h⟩ := bind_eq_ok.mp h
    obtain ⟨s, hs, hm₁⟩ := pop1_eq_ok hpop
    simp only at hs hm₁
    subst hm₁
    cases s with
    | nil =>
      cases h
      exact .ret hs
    | cons w s => cases h
  | pushString | buildArray | callAst | lookbackPush | lookbackPop | lookbackResolve | index => cases hfast
  | _ => cases hinstr

variable {s s' : List (Value D)} {state : Nat × Nat}

omit [Double D] in
theorem Scalars.of_stack {ip : Nat} (hm : Scalars H m) (hs : ∀ v ∈ s, v.isScalar = true) :
    Scalars H { m with ip, stack := s } := ⟨hm.lookback, hs, hm.host⟩

theorem Moves.isScalar (h : Moves host m instr s s') (hs : ∀ v ∈ s, v.isScalar = true) :
    ∀ v ∈ s', v.isScalar = true := by
  cases h with
  | load hload =>
    refine List.forall_mem_cons.mpr ⟨?_, hs⟩
    cases instr with
    | pushConst | pushBool =>
      cases hload
      rfl
    | loadVar | loadVarSquare | loadParam | loadParamSquare =>
      obtain ⟨d, -, rfl⟩ := hload
      rfl
    | _ => cases hload
  | arith | cmpNumber | cmpBool | square | not | intrinsic =>
    simp only [List.forall_mem_cons] at hs ⊢
    exact ⟨rfl, by tauto⟩

theorem Moves.flow_eq (h : Moves host m instr s s') (ip : Nat) : flow instr ip = [ip + 1] := by
  cases h with
  | load hload =>
    cases instr with
    | pushConst | pushBool | loadVar | loadVarSquare | loadParam | loadParamSquare => rfl
    | _ => cases hload
  | _ => rfl

theorem Goes.next_spec (h : Goes host m instr (.next m')) (hm : Scalars H m) :
    Scalars H m' ∧ m'.ip ∈ flow instr m.ip := by
  cases h with
  | next hmoves =>
    refine ⟨hm.of_stack (hmoves.isScalar hm.stack), ?_⟩
    rw [hmoves.flow_eq]
    exact List.mem_singleton_self _
  | jump t => exact ⟨⟨hm.lookback, hm.stack, hm.host⟩, List.mem_singleton_self t⟩
  | @jumpIfFalse t c s hs =>
    have hrest : ∀ v ∈ s, v.isScalar = true := fun v hv => hm.stack v (by simp [hs, hv])
    refine ⟨hm.of_stack hrest, ?_⟩
    cases c <;> simp [flow]
  | @jumpIfTrue t c s hs =>
    have hrest : ∀ v ∈ s, v.isScalar = true := fun v hv => hm.stack v (by simp [hs, hv])
    refine ⟨hm.of_stack hrest, ?_⟩
    cases c <;> simp [flow]

def asDouble : Value D → D
  | .number d => d
  | .bool c => Double.ofBool c
  | _ => Double.zero

def toScalar (m : Machine S D) : ScalarMachine S D := ⟨m.ip, m.stack.map asDouble, [], m.host⟩

def toScalarStep : Step S D → ScalarStep S D
  | .next m => .next (toScalar m)
  | .halt v s => .halt (asDouble v) s

theorem scalarStep_goes (h : Goes host m instr st) : scalarStep host (toScalar m) instr = .ok (toScalarStep st) := by
  cases h with
  | @next _ s hmoves =>
    generalize hstack : m.stack = stack at hmoves
    have hm : toScalar m = ⟨m.ip, stack.map asDouble, [], m.host⟩ := by rw [toScalar, hstack]
    rw [hm]
    cases hmoves with
    | load hload =>
      cases instr with
      | pushConst | pushBool =>
        cases hload
        rfl
      | loadVar | loadVarSquare | loadParam | loadParamSquare =>
        obtain ⟨d, hd, rfl⟩ := hload
        simp only [scalarStep, loadScalar, runHost, hd]
        rfl
      | _ => cases hload
    | arith hop =>
      simp only [scalarStep, ScalarMachine.pop2, List.map_cons, asDouble]
      show (fastArith _ _ _ >>= _) = _
      rw [hop]
      rfl
    | not =>
      rename_i c s
      show Except.ok (ScalarMachine.pushNext _ (Double.ofBool (Double.eq (Double.ofBool c : D) Double.zero))) = _
      have hnot : Double.eq (Double.ofBool c : D) Double.zero = !c := by cases c <;> simp [Double.ofBool]
      rw [hnot]
      rfl
    | _ => rfl
  | jump t => rfl
  | @jumpIfFalse t c s hs =>
    have hm : toScalar m = ⟨m.ip, Double.ofBool c :: s.map asDouble, [], m.host⟩ := by rw [toScalar, hs]; rfl
    have hzero : Double.eq (Double.ofBool c : D) Double.zero = !c := by cases c <;> simp [Double.ofBool]
    rw [hm]
    simp only [scalarStep, ScalarMachine.pop1, bind, Except.bind, hzero, pure, Except.pure]
    cases c <;> rfl
  | @jumpIfTrue t c s hs =>
    have hm : toScalar m = ⟨m.ip, Double.ofBool c :: s.map asDouble, [], m.host⟩ := by rw [toScalar, hs]; rfl
    rw [hm]
    simp only [scalarStep, ScalarMachine.pop1, bind, Except.bind, Double.ne_ofBool_zero, pure, Except.pure]
    cases c <;> rfl
  | @ret v hs =>
    have hm : toScalar m = ⟨m.ip, [asDouble v], [], m.host⟩ := by rw [toScalar, hs]; rfl
    rw [hm]
    rfl

theorem runScalarFast_of_runTyped {seen : Nat → Option Nat} {d : Nat} (hhost : Numbers host H var param)
    (hcode : ∀ instr ∈ program, Operator var param instr)
    (hseen : Consistent ⟨scalarDepthEffect, flow⟩ program d seen) {fuel : Nat} {s : S} (hm : Scalars H m)
    (hip : (seen m.ip).isSome = true) (h : runTyped program host [] fuel m = some (.ok (v, s))) :
    runScalarFast program host fuel (toScalar m) = some (.ok (asDouble v, s)) := by
  induction fuel generalizing m with
  | zero => cases h
  | succ fuel ih =>
    obtain ⟨depth, hdepth⟩ := Option.isSome_iff_exists.mp hip
    obtain ⟨instr, after, hinstr, heffect, hflow⟩ := hseen.next m.ip depth hdepth
    have hfast : (scalarStackEffect instr).isSome = true := by
      simp only [scalarDepthEffect] at heffect
      cases hstack : scalarStackEffect instr with
      | none =>
        rw [hstack] at heffect
        cases heffect
      | some e => rfl
    simp only [runTyped, hinstr] at h
    have hscalar : program[(toScalar m).ip]? = some instr := hinstr
    cases hstep : step program host [] m instr with
    | error f =>
      rw [hstep] at h
      cases h
    | ok st =>
      rw [hstep] at h
      have hgoes := step_goes hhost (hcode instr (List.mem_of_getElem? hinstr)) hfast hm hstep
      simp only [runScalarFast, hscalar, scalarStep_goes hgoes]
      cases st with
      | halt w s' =>
        cases h
        rfl
      | next m' =>
        obtain ⟨hm', hmem⟩ := hgoes.next_spec hm
        exact ih hm' (by rw [hflow m'.ip hmem]; rfl) h

/-! ### The bool executor

`CMP_EQ` on two bools is the one operator that the validator and the bool executor get wrong: both count two numbers.
The validator's counts then drift from the stack by two for good, and no drifted program passes its `RETURN`. -/

omit [Double D] in
def numbersOf : List (Value D) → List D
  | [] => []
  | .number d :: s => d :: numbersOf s
  | _ :: s => numbersOf s

omit [Double D] in
def boolsOf : List (Value D) → List Bool
  | [] => []
  | .bool c :: s => c :: boolsOf s
  | _ :: s => boolsOf s

omit [Double D] in
def toBool (m : Machine S D) : BoolMachine S D := ⟨m.ip, numbersOf m.stack, boolsOf m.stack, m.host⟩

omit [Double D] in
/-- The validator's counts `(numbers, bools)` on a stack, after `k` comparisons of bools. -/
def Drift (k : Nat) (state : Nat × Nat) (s : List (Value D)) : Prop :=
  state.1 + 2 * k = (numbersOf s).length ∧ state.2 = (boolsOf s).length + 2 * k

theorem Moves.drift {state' : Nat × Nat} {k : Nat} (h : Moves host m instr s s')
    (heffect : boolFastStackEffect instr state = some state') (hdrift : Drift k state s) :
    (Drift k state' s' ∧ boolStep host [] ⟨m.ip, numbersOf s, boolsOf s, m.host⟩ instr =
      .ok (.next ⟨m.ip + 1, numbersOf s', boolsOf s', m.host⟩)) ∨ Drift (k + 1) state' s' := by
  obtain ⟨hn, hb⟩ := hdrift
  cases h with
  | load hload =>
    left
    cases instr with
    | pushConst | pushBool =>
      cases hload
      cases heffect
      refine ⟨⟨?_, ?_⟩, rfl⟩ <;> simp only [numbersOf, boolsOf, List.length_cons] <;> omega
    | loadVar | loadVarSquare | loadParam | loadParamSquare =>
      obtain ⟨d, hd, rfl⟩ := hload
      cases heffect
      refine ⟨⟨?_, ?_⟩, ?_⟩
      · simp only [numbersOf, List.length_cons]
        omega
      · simp only [boolsOf]
        omega
      · simp only [boolStep, loadScalar, runHost, hd]
        rfl
    | _ => cases hload
  | arith hop =>
    left
    simp only [boolFastStackEffect] at heffect
    split at heffect <;> cases heffect
    simp only [numbersOf, boolsOf, List.length_cons] at hn hb
    refine ⟨⟨?_, ?_⟩, ?_⟩
    · simp only [numbersOf, List.length_cons]
      omega
    · simp only [boolsOf]
      omega
    · simp only [boolStep, BoolMachine.pop2, numbersOf]
      show (fastArith _ _ _ >>= _) = _
      rw [hop]
      rfl
  | cmpNumber =>
    left
    simp only [boolFastStackEffect] at heffect
    split at heffect <;> cases heffect
    simp only [numbersOf, boolsOf, List.length_cons] at hn hb
    refine ⟨⟨?_, ?_⟩, rfl⟩ <;> simp only [numbersOf, boolsOf, List.length_cons] <;> omega
  | cmpBool =>
    right
    simp only [boolFastStackEffect] at heffect
    split at heffect <;> cases heffect
    simp only [numbersOf, boolsOf, List.length_cons] at hn hb
    refine ⟨?_, ?_⟩ <;> simp only [numbersOf, boolsOf, List.length_cons] <;> omega
  | square | not | intrinsic =>
    left
    simp only [boolFastStackEffect] at heffect
    split at heffect <;> cases heffect
    simp only [numbersOf, boolsOf, List.length_cons] at hn hb
    refine ⟨⟨?_, ?_⟩, rfl⟩ <;> simp only [numbersOf, boolsOf, List.length_cons] <;> omega

omit [Double D] in
theorem scalarStackEffect_of_bool {state' : Nat × Nat} (hinstr : Operator var param instr)
    (h : boolFastStackEffect instr state = some state') : (scalarStackEffect instr).isSome = true := by
  cases instr <;> first
    | rfl
    | cases h
    | cases hinstr

theorem runBoolFast_of_runTyped {seen : Nat → Option (Nat × Nat)} {init : Nat × Nat} (hhost : Numbers host H var param)
    (hcode : ∀ instr ∈ program, Operator var param instr)
    (hseen : Consistent ⟨boolDepthEffect, flow⟩ program init seen) {fuel k : Nat} {s : S}
    (hm : Scalars H m) (hip : seen m.ip = some state) (hdrift : Drift k state m.stack)
    (h : runTyped program host [] fuel m = some (.ok (v, s))) :
    k = 0 ∧ ∃ c, v = .bool c ∧ runBoolFast program host [] fuel (toBool m) = some (.ok (c, s)) := by
  induction fuel generalizing m state k with
  | zero => cases h
  | succ fuel ih =>
    obtain ⟨instr, after, hinstr, heffect, hflow⟩ := hseen.next m.ip state hip
    replace heffect := (boolDepthEffect_eq_some heffect).1
    have hoperator := hcode instr (List.mem_of_getElem? hinstr)
    simp only [runTyped, hinstr] at h
    have hbool : program[(toBool m).ip]? = some instr := hinstr
    cases hstep : step program host [] m instr with
    | error f =>
      rw [hstep] at h
      cases h
    | ok st =>
      rw [hstep] at h
      have hgoes := step_goes hhost hoperator (scalarStackEffect_of_bool hoperator heffect) hm hstep
      -- what remains is one step of the bool executor in front of the rest of the run
      have hcons : ∀ {m' k'}, st = .next m' → Drift k' after m'.stack →
          (k' = k → boolStep host [] (toBool m) instr = .ok (.next (toBool m'))) → (k' = 0 → k' = k) →
          k = 0 ∧ ∃ c, v = .bool c ∧ runBoolFast program host [] (fuel + 1) (toBool m) = some (.ok (c, s)) := by
        rintro m' k' rfl hdrift' hstep' hk
        obtain ⟨hm', hmem⟩ := hgoes.next_spec hm
        obtain ⟨rfl, c, hv, hrun⟩ := ih hm' (hflow m'.ip hmem) hdrift' h
        refine ⟨(hk rfl).symm, c, hv, ?_⟩
        simp only [runBoolFast, hbool, hstep' (hk rfl)]
        exact hrun
      cases hgoes with
      | next hmoves =>
        rcases hmoves.drift heffect hdrift with ⟨hdrift', hnext⟩ | hdrift'
        · exact hcons rfl hdrift' (fun _ => hnext) fun _ => rfl
        · exact hcons rfl hdrift' (fun h => by omega) fun h => by omega
      | jump t =>
        cases heffect
        exact hcons rfl hdrift (fun _ => rfl) fun _ => rfl
      | @jumpIfFalse t c s' hs =>
        simp only [boolFastStackEffect] at heffect
        split at heffect <;> cases heffect
        have hdrift' : Drift k (state.1, state.2 - 1) s' := by
          simp only [Drift, hs, numbersOf, boolsOf, List.length_cons] at hdrift ⊢
          omega
        refine hcons rfl hdrift' (fun _ => ?_) fun _ => rfl
        simp only [boolStep, toBool, BoolMachine.popBool, hs, numbersOf, boolsOf]
        rfl
      | @jumpIfTrue t c s' hs =>
        simp only [boolFastStackEffect] at heffect
        split at heffect <;> cases heffect
        have hdrift' : Drift k (state.1, state.2 - 1) s' := by
          simp only [Drift, hs, numbersOf, boolsOf, List.length_cons] at hdrift ⊢
          omega
        refine hcons rfl hdrift' (fun _ => ?_) fun _ => rfl
        simp only [boolStep, toBool, BoolMachine.popBool, hs, numbersOf, boolsOf]
        rfl
      | @ret w hs =>
        cases h
        simp only [boolFastStackEffect] at heffect
        split at heffect
        · rename_i hret
          obtain ⟨hn, hb⟩ := hdrift
          rw [hs] at hn hb
          cases v with
          | bool c =>
            refine ⟨?_, c, rfl, ?_⟩
            · simp only [numbersOf, List.length_nil] at hn
              omega
            · have hreturn : boolStep host [] (toBool m) .ret = .ok (.halt c m.host) := by
                simp only [boolStep, toBool, hs, numbersOf, boolsOf]
              simp only [runBoolFast, hbool, hreturn]
          | number d =>
            simp only [boolsOf, numbersOf, List.length_nil, List.length_cons] at hn hb
            omega
          | _ =>
            simp only [boolsOf, numbersOf, List.length_nil] at hn hb
            omega
        · cases heffect

end

/-! ### The code of an expression -/

mutual

def AllNames (var param : String → Prop) : Ast D → Prop
  | .identifier name => var name
  | .param name => param name
  | .unary _ a => AllNames var param a
  | .binary _ l r => AllNames var param l ∧ AllNames var param r
  | .ternary c t e => AllNames var param c ∧ AllNames var param t ∧ AllNames var param e
  | .call _ args _ => AllNamesList var param args
  | .array es => AllNamesList var param es
  | .index t i => AllNames var param t ∧ AllNames var param i
  | _ => True

def AllNamesList (var param : String → Prop) : List (Ast D) → Prop
  | [] => True
  | a :: as => AllNames var param a ∧ AllNamesList var param as

end

omit [Double D] in
theorem AllNamesList.of_mem {var param : String → Prop} {as : List (Ast D)} (h : AllNamesList var param as) :
    ∀ a ∈ as, AllNames var param a := by
  induction as with
  | nil => simp
  | cons a as ih =>
    rw [AllNamesList] at h
    exact List.forall_mem_cons.mpr ⟨h.1, ih h.2⟩

section
variable {reg : Registry D} {indexed : Bool} {var param : String → Prop} {ast : Ast D} {inline : InlineBody D}

omit [Double D] in
def AllOperators (var param : String → Prop) (_ : Nat) (code : List (Instr D)) : Prop :=
  ∀ instr ∈ code, Operator var param instr

omit [Double D] in
theorem appends_operator {instr : Instr D} (h : Operator var param instr) :
    Appends (emit instr) (AllOperators var param) :=
  appends_one fun _ => by simpa [AllOperators] using h

theorem appends_folded_operator {otherwise : Compile D} (h : Appends otherwise (AllOperators var param)) :
    Appends (folded reg ast otherwise) (AllOperators var param) := by
  unfold folded
  cases constantTypedValue ast reg with
  | none => exact h
  | some v =>
    cases v with
    | number | bool | string => exact appends_operator trivial
    | _ => exact h

omit [Double D] in
theorem appends_emitAfter_operator {acts : List (Compile D)} {instr : Instr D} (hinstr : Operator var param instr)
    (h : ∀ c ∈ acts, Appends c (AllOperators var param)) : Appends (emitAfter acts instr) (AllOperators var param) := by
  have hall : Appends (compileAll acts) (AllOperators var param) := by
    induction acts with
    | nil =>
      refine appends_compileAll_nil.mono ?_
      rintro b _ rfl
      simp [AllOperators]
    | cons c cs ih =>
      refine (appends_compileAll_cons (h c (by simp)) (ih fun c' hc' => h c' (by simp [hc']))).mono ?_
      rintro b _ ⟨cc, ccs, rfl, hcc, hccs⟩
      exact List.forall_mem_append.mpr ⟨hcc, hccs⟩
  refine (appends_emitAfter hall).mono ?_
  rintro b _ ⟨cc, rfl, hcc⟩
  exact List.forall_mem_append.mpr ⟨hcc, by simpa using hinstr⟩

omit [Double D] in
theorem appends_emitTernary_operator {c t e : Compile D} (hc : Appends c (AllOperators var param))
    (ht : Appends t (AllOperators var param)) (he : Appends e (AllOperators var param)) :
    Appends (emitTernary c t e) (AllOperators var param) := by
  refine (appends_emitTernary hc ht he).mono ?_
  rintro b _ ⟨cc, ct, ce, rfl, hcc, hct, hce⟩
  simp only [AllOperators, ternaryCode, List.forall_mem_append, List.forall_mem_singleton]
  exact ⟨⟨⟨⟨hcc, trivial⟩, hct⟩, trivial⟩, hce⟩

theorem appends_compileLookback_operator (hast : Scalar reg indexed ast) (hnames : AllNames var param ast) (offset : Nat) :
    Appends (compileLookback reg [] [] plainIdentifier inline ast
      (compileNode reg [] [] plainIdentifier inline ast) offset) (AllOperators var param) := by
  induction hast generalizing offset with
  | identifier name =>
    refine (appends_lookback (appends_operator (show Operator var param (.loadVar name _) from hnames))).mono ?_
    rintro b _ ⟨cc, rfl, hcc⟩
    simp only [AllOperators, List.forall_mem_append, List.forall_mem_singleton]
    exact ⟨⟨trivial, hcc⟩, trivial⟩
  | index hi hreg ht hi' iht ihi =>
    rw [AllNames] at hnames
    rw [compileLookback]
    split
    · exact iht hnames.1 _
    · exact appends_operator trivial
  | _ => exact appends_operator trivial

theorem appends_compileNode_operator (hast : Scalar reg indexed ast) (hnames : AllNames var param ast) :
    Appends (compileNode reg [] [] plainIdentifier inline ast) (AllOperators var param) := by
  induction hast with
  | number | bool => exact appends_operator trivial
  | identifier name => exact appends_operator (show Operator var param (.loadVar name _) from hnames)
  | param name => exact appends_operator (show Operator var param (.loadParam name) from hnames)
  | unary op ha iha =>
    rw [AllNames] at hnames
    cases op <;> exact appends_folded_operator (appends_emitAfter_operator trivial (by simpa using iha hnames))
  | @binary op l r hl hr ihl ihr =>
    rw [AllNames] at hnames
    have hcl := ihl hnames.1
    have hcr := ihr hnames.2
    by_cases hand : op = .and
    · subst hand
      refine appends_folded_operator ?_
      split
      · exact appends_operator trivial
      · exact hcr
      · refine (appends_emitAnd hcl hcr).mono ?_
        rintro b _ ⟨cl, cr, rfl, hcl, hcr⟩
        simp only [AllOperators, andCode, List.forall_mem_append, List.forall_mem_singleton]
        exact ⟨⟨⟨⟨⟨⟨hcl, trivial⟩, hcr⟩, trivial⟩, trivial⟩, trivial⟩, trivial⟩
    by_cases hor : op = .or
    · subst hor
      refine appends_folded_operator ?_
      split
      · exact appends_operator trivial
      · exact hcr
      · refine (appends_emitOr hcl hcr).mono ?_
        rintro b _ ⟨cl, cr, rfl, hcl, hcr⟩
        simp only [AllOperators, orCode, List.forall_mem_append, List.forall_mem_singleton]
        exact ⟨⟨⟨⟨⟨⟨⟨⟨hcl, trivial⟩, hcr⟩, trivial⟩, trivial⟩, trivial⟩, trivial⟩, trivial⟩, trivial⟩
    obtain ⟨instr, hinstr⟩ : ∃ instr, binaryInstr op = some (instr : Instr D) := by
      cases op <;> first
        | exact absurd rfl hand
        | exact absurd rfl hor
        | exact ⟨_, rfl⟩
    have hoperator : Operator var param instr := by cases op <;> cases hinstr <;> trivial
    rw [compileNode_binary hand hor hinstr]
    refine appends_folded_operator ?_
    split
    · cases hl with
      | identifier name => exact appends_operator (show Operator var param (.loadVarSquare name) from hnames.1)
      | param name => exact appends_operator (show Operator var param (.loadParamSquare name) from hnames.1)
      | _ => exact appends_emitAfter_operator trivial (by simpa using hcl)
    · exact appends_emitAfter_operator hoperator (by simpa using ⟨hcl, hcr⟩)
  | ternary hc ht he ihc iht ihe =>
    rw [AllNames] at hnames
    exact appends_folded_operator
      (appends_emitTernary_operator (ihc hnames.1) (iht hnames.2.1) (ihe hnames.2.2))
  | ifCall hif hc ht he argNames ihc iht ihe =>
    simp only [AllNames, AllNamesList] at hnames
    refine appends_folded_operator ?_
    simp only [compileCall]
    split
    · exact appends_operator trivial
    · exact appends_emitTernary_operator (ihc hnames.1) (iht hnames.2.1) (ihe hnames.2.2.1)
  | @array hi es hes ih =>
    rw [AllNames] at hnames
    refine appends_folded_operator (appends_emitAfter_operator trivial ?_)
    have hmem := hnames.of_mem
    clear hnames hes
    induction es with
    | nil => simp [compileList]
    | cons e es ih' =>
      rw [compileList]
      exact List.forall_mem_cons.mpr ⟨ih e (by simp) (hmem e (by simp)),
        ih' (fun x hx => ih x (by simp [hx])) fun x hx => hmem x (by simp [hx])⟩
  | @index hi hreg t i ht hi' iht ihi =>
    rw [AllNames] at hnames
    refine appends_folded_operator ?_
    split
    · exact appends_emitAfter_operator trivial (by simpa using ⟨iht hnames.1, ihi hnames.2⟩)
    · cases lookbackLiteralOffset i with
      | none => exact appends_operator trivial
      | some offset => exact appends_compileLookback_operator ht hnames.1 offset

theorem allNames_of_forall (hast : Scalar reg indexed ast) (hvar : ∀ name, var name) (hparam : ∀ name, param name) :
    AllNames var param ast := by
  induction hast with
  | number | bool => simp only [AllNames]
  | identifier name => exact hvar name
  | param name => exact hparam name
  | unary op ha iha => exact iha
  | binary op hl hr ihl ihr => exact ⟨ihl, ihr⟩
  | ternary hc ht he ihc iht ihe => exact ⟨ihc, iht, ihe⟩
  | ifCall hif hc ht he argNames ihc iht ihe => exact ⟨ihc, iht, ihe, trivial⟩
  | @array hi es hes ih =>
    rw [AllNames]
    clear hes
    induction es with
    | nil => trivial
    | cons e es ih' => exact ⟨ih e (by simp), ih' fun x hx => ih x (by simp [hx])⟩
  | index hi hreg ht hi' iht ihi => exact ⟨iht, ihi⟩

theorem compile_operator {code : Program D} (hast : Scalar reg indexed ast) (hnames : AllNames var param ast)
    (hcode : compile ast reg = .ok code) : ∀ instr ∈ code, Operator var param instr := by
  obtain ⟨code', hbody, hret⟩ := bind_eq_ok.mp hcode
  obtain ⟨body, hbody', hall⟩ := appends_compileNode_operator hast hnames [] code' hbody
  cases hret
  rw [hbody', List.nil_append]
  exact List.forall_mem_append.mpr ⟨hall, by simp [Operator]⟩

end

section
variable {host : Host S D} {H : Set S} {var param : String → Prop} {program : Program D} {v : Value D} {s s' : S}

theorem runTyped_of_execTyped (h : execTyped program host [] s = some (.ok (v, s'))) :
    runTyped program host [] (program.length + 1) { host := s } = some (.ok (v, s')) := by
  unfold execTyped at h
  split at h
  · cases h
  · exact h

omit [Double D] in
theorem scalars_start (hs : s ∈ H) : Scalars H ({ host := s } : Machine S D) := ⟨rfl, by simp, hs⟩

theorem execScalarFast_of_execTyped (hhost : Numbers host H var param)
    (hcode : ∀ instr ∈ program, Operator var param instr) (hvalid : validateScalarFastProgram program = true)
    (hs : s ∈ H) (h : execTyped program host [] s = some (.ok (v, s'))) :
    execScalarFast program host [] s = some (.ok (asDouble v, s')) := by
  simp only [validateScalarFastProgram, Bool.and_eq_true] at hvalid
  obtain ⟨seen, hseen⟩ := accepts_consistent hvalid.2
  exact runScalarFast_of_runTyped hhost hcode hseen (scalars_start hs) (by rw [hseen.start]; rfl)
    (runTyped_of_execTyped h)

theorem execBoolFast_of_execTyped (hhost : Numbers host H var param)
    (hcode : ∀ instr ∈ program, Operator var param instr) (hvalid : validateBoolFastProgram program = true)
    (hs : s ∈ H) (h : execTyped program host [] s = some (.ok (v, s'))) :
    ∃ c, v = .bool c ∧ execBoolFast program host [] s = some (.ok (c, s')) := by
  simp only [validateBoolFastProgram, Bool.and_eq_true] at hvalid
  obtain ⟨seen, hseen⟩ := accepts_consistent hvalid.2
  have hdrift : Drift 0 (0, 0) ([] : List (Value D)) := ⟨rfl, rfl⟩
  exact (runBoolFast_of_runTyped hhost hcode hseen (scalars_start hs) hseen.start hdrift (runTyped_of_execTyped h)).2

end
end Cxpr.Ir
