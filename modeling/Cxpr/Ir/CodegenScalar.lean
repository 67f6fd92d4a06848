import Cxpr.Ir.EmittedC
import Cxpr.Ir.FastSimulation
import Cxpr.Ir.WellFormed

/-! Scalar functions of the C backend go in step with the typed executor: the stack of doubles holds what the stack of
    values holds, label by label. -/

namespace Cxpr.Ir.Codegen
variable {S D : Type} [Double D]

/-- A number is itself in C, a bool is `1.0` or `0.0`. -/
inductive IsDouble : Value D → D → Prop
  | number (d : D) : IsDouble (.number d) d
  | bool (b : Bool) : IsDouble (.bool b) (Double.ofBool b)

theorem IsDouble.isScalar {v : Value D} {d : D} (h : IsDouble v d) : v.isScalar = true := by
  cases h <;> rfl

theorem IsDouble.unique {v : Value D} {d d' : D} (h : IsDouble v d) (h' : IsDouble v d') : d' = d := by
  cases h <;> cases h' <;> rfl

def nativeOf : Instr D → Option (CFunc × Nat)
  | .callUnary func _ _ => (nativeUnary func.name).map (·, 1)
  | .callBinary func _ _ => (nativeBinary func.name).map (·, 2)
  | .callFunc func _ n => (nativeFold func.name).map (·, n)
  | _ => none

def CFunc.onList (lib : CLib D) (fn : CFunc) (ds : List D) : Option D :=
  match (fn.unary : Option (D → D)), fn.binary lib, ds with
  | some f, _, [d] => some (f d)
  | none, some g, d :: ds => some (ds.foldl g d)
  | _, _, _ => none

def Honest (lib : CLib D) (instr : Instr D) (before after : List (Value D)) : Prop :=
  ∀ fn n ds, nativeOf instr = some (fn, n) → List.Forall₂ IsDouble (before.take n).reverse ds →
    ∃ v d, after.head? = some v ∧ fn.onList lib ds = some d ∧ IsDouble v d

def HonestRun (lib : CLib D) (program : Program D) (host : Host S D) : Nat → Machine S D → Prop
  | 0, _ => True
  | fuel + 1, m => ∀ instr m', program[m.ip]? = some instr → step program host [] m instr = .ok (.next m') →
      Honest lib instr m.stack m'.stack ∧ HonestRun lib program host fuel m'

/-- What the emitted functions rely on: an argument has the same value in C and on the host, whose state stays what it
    is. -/
structure Bound (f : CFrame D) (args : List ProgramArg) (host : Host S D) (t : S) : Prop where
  var : ∀ ip name c, loadArg args .var name = .ok c →
    ∃ v d, f.param c = some d ∧ IsDouble v d ∧ host.loadVariableTyped ip name t = .ok (some v, t)
  param : ∀ ip name c, loadArg args .param name = .ok c →
    ∃ v d, f.param c = some d ∧ IsDouble v d ∧ host.loadParam ip name t = .ok (some v, t) ∧
      ∃ x, host.lookupCachedParam ip name t = .ok (x, t) ∧ ∀ d', x = some d' → d' = d
  memoGet : ∀ func payload, host.memoGet func payload t = .ok (none, t)
  memoSet : ∀ func payload v, host.memoSet func payload v t = .ok ((), t)
  callTyped : ∀ func values v t', host.callTyped func values t = .ok (v, t') → t' = t

def Sees (f : CFrame D) (stmts : List Stmt) : Prop := ∀ stmt ∈ stmts, ∀ fn, stmt.calls = some fn → f.sees fn = true

structure Sim (t : S) (m : Machine S D) (s : CState D) : Prop where
  stack : List.Forall₂ IsDouble m.stack s.stack
  room : m.stack.length ≤ m.ip
  lookback : m.lookbackDepth = 0
  host : m.host = t

inductive Follows (t : S) (m : Machine S D) : Step S D → Flow D → Prop
  | next {m' : Machine S D} {s : CState D} (hip : m'.ip = m.ip + 1) (h : Sim t m' s) : Follows t m (.next m') (.next s)
  | jump {m' : Machine S D} {s : CState D} (h : Sim t m' s) : Follows t m (.next m') (.goto m'.ip s)
  | halt {v : Value D} {d : D} {t' : S} (h : IsDouble v d) : Follows t m (.halt v t') (.ret d)

section
variable {lib : CLib D} {f : CFrame D} {args : List ProgramArg} {host : Host S D} {t : S} {program : Program D}
  {m m' : Machine S D} {s : CState D} {instr : Instr D} {stmts : List Stmt} {st : Step S D} {v : Value D} {d : D}

variable {vs : List (Value D)} {a : Value D} {rest : List D} {fn : CFunc} {name : String}

theorem Sim.replace (h : Sim t m s) {ds : List D} (hs : List.Forall₂ IsDouble vs ds)
    (hlen : vs.length ≤ m.stack.length) (hv : IsDouble v d) :
    Follows t m (.next { m with ip := m.ip + 1, stack := v :: vs }) (.next { s with stack := d :: ds }) := by
  refine .next rfl ⟨.cons hv hs, ?_, h.lookback, h.host⟩
  have hroom := h.room
  simp only [List.length_cons]
  omega

theorem Sim.room_lt (h : Sim t m s) (hroom : m.ip < f.stackSize) : s.stack.length < f.stackSize := by
  rw [← h.stack.length_eq]
  exact lt_of_le_of_lt h.room hroom

theorem Sim.push (h : Sim t m s) (hroom : m.ip < f.stackSize) (hv : IsDouble v d) (hstep : m.pushNext v = .ok st) :
    ∃ flow, s.push f d = some flow ∧ Follows t m st flow := by
  rw [pushNext_eq_ok hstep]
  exact ⟨_, if_pos (h.room_lt hroom), h.replace h.stack (Nat.le_refl _) hv⟩

theorem Sim.pushSquare {c : String} (h : Sim t m s) (hroom : m.ip < f.stackSize) (hc : f.param c = some d)
    (hstep : m.pushNext (.number (Double.mul d d)) = .ok st) :
    ∃ flow, execAll lib f [.pushArg c, .square] s = some flow ∧ Follows t m st flow := by
  rw [pushNext_eq_ok hstep]
  refine ⟨.next { s with stack := Double.mul d d :: s.stack }, ?_, h.replace h.stack (Nat.le_refl _) (.number _)⟩
  simp [execAll, Stmt.exec, hc, CState.push, h.room_lt hroom]

theorem Sim.pop1 {exec : Value D → Except Fault (Value D)} {g : D → D} (h : Sim t m s)
    (hstep : (m.pop1 >>= fun x => exec x.1 >>= fun v => x.2.pushNext v) = .ok st)
    (hexec : ∀ a v d, IsDouble a d → exec a = .ok v → IsDouble v (g d)) :
    ∃ a rest, s.stack = a :: rest ∧ Follows t m st (.next { s with stack := g a :: rest }) := by
  obtain ⟨⟨a, m₁⟩, hpop, hstep⟩ := bind_eq_ok.mp hstep
  obtain ⟨v, hv, hstep⟩ := bind_eq_ok.mp hstep
  obtain ⟨vs, hs, rfl⟩ := pop1_eq_ok hpop
  have hstack := h.stack
  simp only at hs hv hstep
  rw [hs] at hstack
  obtain ⟨d, rest, hd, hrest, hcons⟩ := List.forall₂_cons_left_iff.mp hstack
  rw [pushNext_eq_ok hstep]
  exact ⟨d, rest, hcons, h.replace hrest (by simp [hs]) (hexec a v d hd hv)⟩

theorem Sim.pop2 {exec : Value D → Value D → Except Fault (Value D)} {g : D → D → D} (h : Sim t m s)
    (hstep : (m.pop2 >>= fun x => exec x.1 x.2.1 >>= fun v => x.2.2.pushNext v) = .ok st)
    (hexec : ∀ a b v x y, IsDouble a x → IsDouble b y → exec a b = .ok v → IsDouble v (g x y)) :
    ∃ a b rest, s.stack = b :: a :: rest ∧ Follows t m st (.next { s with stack := g a b :: rest }) := by
  obtain ⟨⟨a, b, m₁⟩, hpop, hstep⟩ := bind_eq_ok.mp hstep
  obtain ⟨v, hv, hstep⟩ := bind_eq_ok.mp hstep
  obtain ⟨vs, hs, rfl⟩ := pop2_eq_ok hpop
  have hstack := h.stack
  simp only at hs hv hstep
  rw [hs] at hstack
  obtain ⟨y, _, hy, hstack, hcons⟩ := List.forall₂_cons_left_iff.mp hstack
  obtain ⟨x, rest, hx, hrest, rfl⟩ := List.forall₂_cons_left_iff.mp hstack
  rw [pushNext_eq_ok hstep]
  exact ⟨x, y, rest, hcons, h.replace hrest (by simp [hs]; omega) (hexec a b v x y hx hy hv)⟩

def arithC (op : Arith) (a b : D) : D :=
  match op with
  | .add => Double.add a b
  | .sub => Double.sub a b
  | .mul => Double.mul a b
  | .div => Double.div a b
  | .mod => Double.fmod a b
  | .pow => Double.pow a b

theorem isDouble_execArith {op : Arith} {b : Value D} {x y : D} (ha : IsDouble a x) (hb : IsDouble b y)
    (h : execArith op a b = .ok v) : IsDouble v (arithC op x y) := by
  obtain ⟨x', y', d, rfl, rfl, rfl, hfast⟩ := execArith_eq_ok ha.isScalar hb.isScalar h
  cases ha
  cases hb
  cases op with
  | div | mod =>
    simp only [fastArith] at hfast
    split at hfast
    · cases hfast
    · cases hfast
      exact .number _
  | _ =>
    cases hfast
    exact .number _

theorem isDouble_execCmp {op : Cmp} {b : Value D} {x y : D} (ha : IsDouble a x) (hb : IsDouble b y)
    (h : execCmp op a b = .ok v) : IsDouble v (Double.ofBool (cmpApply op x y)) := by
  rcases execCmp_eq_ok ha.isScalar hb.isScalar h with ⟨x', y', rfl, rfl, rfl⟩ | ⟨x', y', rfl, rfl, rfl⟩
  all_goals
    cases ha
    cases hb
    exact .bool _

theorem isDouble_execIntrinsic {op : Intrinsic} {x : D} (ha : IsDouble a x)
    (h : execIntrinsic op a = .ok v) : IsDouble v (fastIntrinsic op x) := by
  cases ha with
  | number d => cases op <;> cases h <;> exact .number _
  | bool b => cases op <;> cases h

theorem isDouble_execSquare {x : D} (ha : IsDouble a x) (h : execSquare a = .ok v) :
    IsDouble v (Double.mul x x) := by
  cases ha with
  | number d =>
    cases h
    exact .number _
  | bool b => cases h

theorem isDouble_execNot {x : D} (ha : IsDouble a x) (h : execNot a = .ok v) :
    IsDouble v (Double.ofBool (Double.eq x Double.zero)) := by
  cases ha with
  | number d => cases h
  | bool b =>
    cases h
    have hb : Double.eq (Double.ofBool b : D) Double.zero = !b := by cases b <;> simp [Double.ofBool]
    rw [hb]
    exact .bool _

theorem isDouble_execClamp {lo hi : Value D} {x l u : D} (ha : IsDouble a x) (hlo : IsDouble lo l) (hhi : IsDouble hi u)
    (h : execClamp a lo hi = .ok v) : IsDouble v (fastClamp x l u) := by
  cases ha <;> cases hlo <;> cases hhi <;> cases h
  exact .number _

theorem exec_arithStmt {op : Arith} (hsees : Sees f [arithStmt op]) {a b : D}
    (hs : s.stack = b :: a :: rest) :
    (arithStmt op).exec lib f s = some (.next { s with stack := arithC op a b :: rest }) := by
  have hsee := hsees _ (List.mem_singleton_self _)
  cases op with
  | mod => simp [arithStmt, Stmt.exec, hs, arithC, CFunc.binary, hsee .fmod rfl]
  | pow => simp [arithStmt, Stmt.exec, hs, arithC, CFunc.binary, hsee .pow rfl]
  | _ => simp [arithStmt, Stmt.exec, hs, arithC, COp.apply]

theorem exec_intrinsicStmt {op : Intrinsic} (hsees : Sees f [intrinsicStmt op]) {a : D}
    (hs : s.stack = a :: rest) :
    (intrinsicStmt op).exec lib f s = some (.next { s with stack := fastIntrinsic op a :: rest }) := by
  have hsee := hsees _ (List.mem_singleton_self _)
  cases op with
  | neg | sign => simp [intrinsicStmt, Stmt.exec, hs, fastIntrinsic]
  | _ =>
    have hfn := hsee _ rfl
    simp [intrinsicStmt, Stmt.exec, hs, fastIntrinsic, CFunc.unary, hfn]

theorem execAll_singleton (stmt : Stmt) : execAll lib f [stmt] s = stmt.exec lib f s := by
  unfold execAll
  cases stmt.exec lib f s with
  | none => rfl
  | some flow => cases flow <;> rfl

theorem run_memoGet (hb : Bound f args host m.host) (func : FuncEntry D) (payload : Ast D) :
    Host.run m (host.memoGet func payload) = .ok (none, m) := by
  simp [Host.run, hb.memoGet]

theorem run_memoSet (hb : Bound f args host m.host) (func : FuncEntry D) (payload : Ast D) (v : Value D) :
    Host.run m (host.memoSet func payload v) = .ok ((), m) := by
  simp [Host.run, hb.memoSet]

theorem execNative_eq_ok {func : FuncEntry D} {payload : Ast D} {values : List (Value D)} {g : List D → D}
    (hb : Bound f args host m.host) (h : execNative host m func payload values g = .ok st) :
    ∃ v, m.pushNext v = .ok st := by
  unfold execNative at h
  split at h
  · cases h
  · simp only [run_memoGet hb, run_memoSet hb, bind, Except.bind] at h
    exact ⟨_, h⟩

theorem native_step {n : Nat} (hb : Bound f args host m.host) (hnative : nativeOf instr = some (fn, n))
    (hstep : step program host [] m instr = .ok st) :
    n ≤ m.stack.length ∧ ∃ v, st = .next { m with ip := m.ip + 1, stack := v :: m.stack.drop n } := by
  cases instr with
  | callUnary func g payload =>
    obtain ⟨_, -, hn⟩ := Option.map_eq_some_iff.mp hnative
    cases hn
    obtain ⟨⟨a, m₁⟩, hpop, hstep⟩ := bind_eq_ok.mp hstep
    obtain ⟨vs, hs, hm₁⟩ := pop1_eq_ok hpop
    simp only at hs hm₁ hstep
    subst hm₁
    obtain ⟨v, hpush⟩ := execNative_eq_ok (m := { m with stack := vs }) hb hstep
    refine ⟨by simp [hs], v, ?_⟩
    rw [pushNext_eq_ok hpush, hs]
    rfl
  | callBinary func g payload =>
    obtain ⟨_, -, hn⟩ := Option.map_eq_some_iff.mp hnative
    cases hn
    obtain ⟨⟨a, b, m₁⟩, hpop, hstep⟩ := bind_eq_ok.mp hstep
    obtain ⟨vs, hs, hm₁⟩ := pop2_eq_ok hpop
    simp only at hs hm₁ hstep
    subst hm₁
    obtain ⟨v, hpush⟩ := execNative_eq_ok (m := { m with stack := vs }) hb hstep
    refine ⟨by simp [hs], v, ?_⟩
    rw [pushNext_eq_ok hpush, hs]
    rfl
  | callFunc func payload k =>
    obtain ⟨_, -, hn⟩ := Option.map_eq_some_iff.mp hnative
    cases hn
    obtain ⟨⟨values, m₁⟩, hpop, hstep⟩ := bind_eq_ok.mp hstep
    unfold Machine.popArgs at hpop
    split at hpop
    · cases hpop
    · rename_i hlen
      cases hpop
      refine ⟨Nat.not_lt.mp hlen, ?_⟩
      simp only at hstep
      split at hstep
      · cases hstep
      · simp only [run_memoGet (m := { m with stack := m.stack.drop n }) hb, bind, Except.bind] at hstep
        split at hstep
        · cases hstep
        · rename_i r hcall
          unfold Host.run at hcall
          split at hcall
          · cases hcall
          · rename_i v t' hcalled
            cases hcall
            obtain rfl := hb.callTyped _ _ _ _ hcalled
            simp only [run_memoSet (m := { m with stack := m.stack.drop n }) hb] at hstep
            exact ⟨v, pushNext_eq_ok hstep⟩
  | _ => cases hnative

theorem nativeUnary_cases (h : nativeUnary name = some fn) :
    ∃ g : D → D, fn.unary = some g := by
  unfold nativeUnary at h
  split at h <;> cases h <;> exact ⟨_, rfl⟩

theorem nativeBinary_cases (lib : CLib D) (h : nativeBinary name = some fn) :
    (fn.unary : Option (D → D)) = none ∧ ∃ g, fn.binary lib = some g := by
  unfold nativeBinary at h
  split at h <;> cases h <;> exact ⟨rfl, _, rfl⟩

theorem nativeFold_cases (lib : CLib D) (h : nativeFold name = some fn) :
    (fn.unary : Option (D → D)) = none ∧ ∃ g, fn.binary lib = some g := by
  unfold nativeFold at h
  split at h <;> cases h <;> exact ⟨rfl, _, rfl⟩

theorem exec_native {n : Nat} (hsees : Sees f stmts) (hnative : nativeOf instr = some (fn, n))
    (hemit : emitInstr args instr = .ok stmts) (hlen : n ≤ s.stack.length)
    (hd : fn.onList lib (s.stack.take n).reverse = some d) :
    execAll lib f stmts s = some (.next { s with stack := d :: s.stack.drop n }) := by
  cases instr with
  | callUnary func g payload =>
    obtain ⟨fn', hfn, hn⟩ := Option.map_eq_some_iff.mp hnative
    cases hn
    simp only [emitInstr, hfn] at hemit
    cases hemit
    obtain ⟨g, hg⟩ := nativeUnary_cases (D := D) hfn
    rcases hs : s.stack with _ | ⟨a, rest⟩
    · simp [hs] at hlen
    · simp only [CFunc.onList, hg, hs, List.take_succ_cons, List.take_zero, List.reverse_singleton, Option.some.injEq] at hd
      have hsee := hsees _ (List.mem_singleton_self _) fn rfl
      simp [execAll_singleton, Stmt.exec, hg, hsee, hs, hd]
  | callBinary func g payload =>
    obtain ⟨fn', hfn, hn⟩ := Option.map_eq_some_iff.mp hnative
    cases hn
    simp only [emitInstr, hfn] at hemit
    cases hemit
    obtain ⟨hnone, g, hg⟩ := nativeBinary_cases lib hfn
    rcases hs : s.stack with _ | ⟨b, _ | ⟨a, rest⟩⟩
    · simp [hs] at hlen
    · simp [hs] at hlen
    · simp [CFunc.onList, hnone, hg, hs] at hd
      have hsee := hsees _ (List.mem_singleton_self _) fn rfl
      simp [execAll_singleton, Stmt.exec, hg, hsee, hs, hd]
  | callFunc func payload k =>
    obtain ⟨fn', hfn, hn⟩ := Option.map_eq_some_iff.mp hnative
    cases hn
    obtain ⟨hnone, g, hg⟩ := nativeFold_cases lib hfn
    cases n with
    | zero => simp [emitInstr, hfn] at hemit
    | succ n =>
      simp only [emitInstr, hfn] at hemit
      cases hemit
      rcases hargs : (s.stack.take (n + 1)).reverse with _ | ⟨a, rest⟩
      · rw [hargs] at hd
        simp [CFunc.onList, hnone, hg] at hd
      · rw [hargs] at hd
        simp only [CFunc.onList, hnone, hg, Option.some.injEq] at hd
        have hsee := hsees _ (List.mem_singleton_self _) fn rfl
        simp [execAll_singleton, Stmt.exec, hg, hsee, hargs, hd, Nat.not_lt.mpr hlen]
  | _ => cases hnative

theorem native_follows {n : Nat} (hb : Bound f args host t) (hsees : Sees f stmts) (hsim : Sim t m s)
    (hnative : nativeOf instr = some (fn, n)) (hemit : emitInstr args instr = .ok stmts)
    (hstep : step program host [] m instr = .ok st)
    (hhonest : ∀ m', st = .next m' → Honest lib instr m.stack m'.stack) :
    ∃ flow, execAll lib f stmts s = some flow ∧ Follows t m st flow := by
  obtain rfl := hsim.host
  obtain ⟨hlen, v, rfl⟩ := native_step hb hnative hstep
  have hstacks := hsim.stack
  obtain ⟨v', d, hv', hd, hdouble⟩ := hhonest _ rfl fn n (s.stack.take n).reverse hnative
    (List.forall₂_reverse_iff.mpr (List.forall₂_take n hstacks))
  obtain rfl : v = v' := by simpa using hv'
  refine ⟨_, exec_native hsees hnative hemit (hstacks.length_eq ▸ hlen) hd, ?_⟩
  exact hsim.replace (List.forall₂_drop n hstacks) (by simp) hdouble

def ConstantsRendered (code : Program D) : Prop := ∀ d, .pushConst d ∈ code → constantOf (Double.formatG 17 d) = some d

theorem load_follows {c : String} (hsim : Sim t m s) (hroom : m.ip < f.stackSize) (hc : f.param c = some d)
    (hv : IsDouble v d) (hstep : m.pushNext v = .ok st) :
    ∃ flow, execAll lib f [.pushArg c] s = some flow ∧ Follows t m st flow := by
  rw [execAll_singleton]
  simpa [Stmt.exec, hc] using hsim.push hroom hv hstep

theorem Sim.jumpTo (h : Sim t m s) {target : Nat} {ds : List D} (hs : List.Forall₂ IsDouble vs ds)
    (hlen : vs.length ≤ m.stack.length) (hjump : m.ip < target) :
    Follows t m (.next { m with ip := target, stack := vs }) (.goto target { s with stack := ds }) := by
  have hroom := h.room
  exact .jump ⟨hs, by simp only; omega, h.lookback, h.host⟩

theorem branch_follows {target : Nat} {b : Bool} (hsim : Sim t m s)
    (hs : m.stack = .bool b :: vs) (hrest : List.Forall₂ IsDouble vs rest) (hjump : m.ip < target) (taken : Bool) :
    Follows t m (.next { m with stack := vs, ip := if taken then target else m.ip + 1 })
      (if taken then .goto target { s with stack := rest } else .next { s with stack := rest }) := by
  have hlen : vs.length ≤ m.stack.length := by simp [hs]
  cases taken with
  | true => exact hsim.jumpTo hrest hlen hjump
  | false =>
    refine .next rfl ⟨hrest, ?_, hsim.lookback, hsim.host⟩
    have hroom := hsim.room
    simp only [Bool.false_eq_true, if_false]
    omega

theorem step_follows (hb : Bound f args host t) (hsees : Sees f stmts) (hsim : Sim t m s) (hroom : m.ip < f.stackSize)
    (hjumps : ∀ target, instr.target? = some target → m.ip < target)
    (hconst : ∀ d, instr = .pushConst d → constantOf (Double.formatG 17 d) = some d)
    (hemit : emitInstr args instr = .ok stmts) (hstep : step program host [] m instr = .ok st)
    (hhonest : ∀ m', st = .next m' → Honest lib instr m.stack m'.stack) :
    ∃ flow, execAll lib f stmts s = some flow ∧ Follows t m st flow := by
  obtain rfl := hsim.host
  cases instr with
  | pushConst d =>
    cases hemit
    rw [execAll_singleton]
    simpa [Stmt.exec, hconst d rfl] using hsim.push hroom (.number d) hstep
  | pushBool d =>
    cases hemit
    rw [execAll_singleton]
    exact hsim.push hroom (.bool _) hstep
  | loadVar name payload =>
    obtain ⟨c, hc, hemit⟩ := bind_eq_ok.mp hemit
    cases hemit
    obtain ⟨v, d, hparam, hv, hload⟩ := hb.var m.ip name c hc
    simp only [step, loadValue, hsim.lookback, Nat.lt_irrefl, if_false, run_found hload] at hstep
    exact load_follows hsim hroom hparam hv hstep
  | loadVarSquare name =>
    obtain ⟨c, hc, hemit⟩ := bind_eq_ok.mp hemit
    cases hemit
    obtain ⟨v, d, hparam, hv, hload⟩ := hb.var m.ip name c hc
    simp only [step, loadValue, hsim.lookback, Nat.lt_irrefl, if_false, run_found hload] at hstep
    obtain ⟨w, hw, hstep⟩ := bind_eq_ok.mp hstep
    cases hv with
    | number d =>
      cases hw
      exact hsim.pushSquare hroom hparam hstep
    | bool b =>
      cases hw
      cases hstep
  | loadParam name =>
    obtain ⟨c, hc, hemit⟩ := bind_eq_ok.mp hemit
    cases hemit
    obtain ⟨v, d, hparam, hv, hload, -⟩ := hb.param m.ip name c hc
    simp only [step, run_found hload] at hstep
    exact load_follows hsim hroom hparam hv hstep
  | loadParamSquare name =>
    obtain ⟨c, hc, hemit⟩ := bind_eq_ok.mp hemit
    cases hemit
    obtain ⟨v, d, hparam, -, -, x, hload, hx⟩ := hb.param m.ip name c hc
    cases x with
    | none =>
      simp only [step, run_found_none hload] at hstep
      cases hstep
    | some d' =>
      obtain rfl := hx d' rfl
      simp only [step, run_found hload] at hstep
      exact hsim.pushSquare hroom hparam hstep
  | loadLocal i | loadLocalSquare i =>
    simp only [step, List.getElem?_nil] at hstep
    cases hstep
  | arith op =>
    cases hemit
    obtain ⟨a, b, rest, hs, hfollows⟩ := hsim.pop2 hstep fun _ _ _ _ _ ha hb h => isDouble_execArith ha hb h
    exact ⟨_, by rw [execAll_singleton, exec_arithStmt hsees hs], hfollows⟩
  | cmp op =>
    cases hemit
    obtain ⟨a, b, rest, hs, hfollows⟩ := hsim.pop2 hstep fun _ _ _ _ _ ha hb h => isDouble_execCmp ha hb h
    exact ⟨_, by simp [execAll_singleton, Stmt.exec, hs], hfollows⟩
  | square =>
    cases hemit
    obtain ⟨a, rest, hs, hfollows⟩ := hsim.pop1 hstep fun _ _ _ ha h => isDouble_execSquare ha h
    exact ⟨_, by simp [execAll_singleton, Stmt.exec, hs], hfollows⟩
  | not =>
    cases hemit
    rw [step_not] at hstep
    obtain ⟨a, rest, hs, hfollows⟩ := hsim.pop1 hstep fun _ _ _ ha h => isDouble_execNot ha h
    exact ⟨_, by simp [execAll_singleton, Stmt.exec, hs], hfollows⟩
  | intrinsic op =>
    cases hemit
    obtain ⟨a, rest, hs, hfollows⟩ := hsim.pop1 hstep fun _ _ _ ha h => isDouble_execIntrinsic ha h
    exact ⟨_, by rw [execAll_singleton, exec_intrinsicStmt hsees hs], hfollows⟩
  | clamp =>
    cases hemit
    obtain ⟨⟨lo, hi, m₁⟩, hpop, hrest₁⟩ := bind_eq_ok.mp hstep
    obtain ⟨vs, hs, hm₁⟩ := pop2_eq_ok hpop
    simp only at hs hm₁ hrest₁
    subst hm₁
    obtain ⟨⟨a, m₂⟩, hpop', hrest₂⟩ := bind_eq_ok.mp hrest₁
    obtain ⟨ws, hws, hm₂⟩ := pop1_eq_ok hpop'
    simp only at hws hm₂ hrest₂
    subst hm₂ hws
    obtain ⟨v, hv, hpush⟩ := bind_eq_ok.mp hrest₂
    have hstack := hsim.stack
    rw [hs] at hstack
    obtain ⟨u, _, hu, hlower, hcons⟩ := List.forall₂_cons_left_iff.mp hstack
    obtain ⟨l, _, hl, hlowest, rfl⟩ := List.forall₂_cons_left_iff.mp hlower
    obtain ⟨x, rest, hx, hrest, rfl⟩ := List.forall₂_cons_left_iff.mp hlowest
    rw [pushNext_eq_ok hpush]
    refine ⟨.next { s with stack := fastClamp x l u :: rest }, ?_, ?_⟩
    · simp [execAll_singleton, Stmt.exec, hcons, fastClamp]
    · exact hsim.replace hrest (by simp [hs]; omega) (isDouble_execClamp hx hl hu hv)
  | callUnary func g payload =>
    cases hfn : nativeUnary func.name with
    | none => simp [emitInstr, hfn] at hemit
    | some fn =>
      have hnative : nativeOf (.callUnary func g payload) = some (fn, 1) := by simp [nativeOf, hfn]
      exact native_follows hb hsees hsim hnative hemit hstep hhonest
  | callBinary func g payload =>
    cases hfn : nativeBinary func.name with
    | none => simp [emitInstr, hfn] at hemit
    | some fn =>
      have hnative : nativeOf (.callBinary func g payload) = some (fn, 2) := by simp [nativeOf, hfn]
      exact native_follows hb hsees hsim hnative hemit hstep hhonest
  | callFunc func payload n =>
    cases hfn : nativeFold func.name with
    | none => simp [emitInstr, hfn] at hemit
    | some fn =>
      have hnative : nativeOf (.callFunc func payload n) = some (fn, n) := by simp [nativeOf, hfn]
      exact native_follows hb hsees hsim hnative hemit hstep hhonest
  | jump target =>
    cases hemit
    cases hstep
    exact ⟨_, by rw [execAll_singleton]; rfl, hsim.jumpTo hsim.stack (Nat.le_refl _) (hjumps target rfl)⟩
  | jumpIfFalse target =>
    cases hemit
    obtain ⟨⟨a, m₁⟩, hpop, hstep⟩ := bind_eq_ok.mp hstep
    obtain ⟨vs, hs, hm₁⟩ := pop1_eq_ok hpop
    simp only at hs hm₁ hstep
    subst hm₁
    cases a <;> cases hstep
    rename_i b
    have hstack := hsim.stack
    rw [hs] at hstack
    obtain ⟨d, rest, hd, hrest, hcons⟩ := List.forall₂_cons_left_iff.mp hstack
    cases hd
    cases b with
    | false => exact ⟨_, by simp [execAll_singleton, Stmt.exec, hcons, Double.ofBool],
        branch_follows hsim hs hrest (hjumps target rfl) true⟩
    | true => exact ⟨_, by simp [execAll_singleton, Stmt.exec, hcons, Double.ofBool],
        branch_follows hsim hs hrest (hjumps target rfl) false⟩
  | jumpIfTrue target =>
    cases hemit
    obtain ⟨⟨a, m₁⟩, hpop, hstep⟩ := bind_eq_ok.mp hstep
    obtain ⟨vs, hs, hm₁⟩ := pop1_eq_ok hpop
    simp only at hs hm₁ hstep
    subst hm₁
    cases a <;> cases hstep
    rename_i b
    have hstack := hsim.stack
    rw [hs] at hstack
    obtain ⟨d, rest, hd, hrest, hcons⟩ := List.forall₂_cons_left_iff.mp hstack
    cases hd
    refine ⟨_, ?_, branch_follows hsim hs hrest (hjumps target rfl) b⟩
    simp [execAll_singleton, Stmt.exec, hcons]
  | storeLocal i => cases hstep
  | ret =>
    cases hemit
    obtain ⟨⟨a, m₁⟩, hpop, hstep⟩ := bind_eq_ok.mp hstep
    obtain ⟨vs, hs, hm₁⟩ := pop1_eq_ok hpop
    simp only at hs hm₁ hstep
    subst hm₁
    have hstack := hsim.stack
    rw [hs] at hstack
    obtain ⟨d, rest, hd, hrest, hcons⟩ := List.forall₂_cons_left_iff.mp hstack
    cases vs with
    | nil =>
      cases hstep
      exact ⟨_, by simp [execAll_singleton, Stmt.exec, hcons], .halt hd⟩
    | cons w vs => cases hstep
  | _ => cases hemit

def Emitted (args : List ProgramArg) (program : Program D) (body : List (List Stmt)) : Prop :=
  ∀ (i : Nat) instr, program[i]? = some instr → ∃ stmts, body[i]? = some stmts ∧ emitInstr args instr = .ok stmts

theorem run_follows {body : List (List Stmt)} (hb : Bound f args host t) (hsees : ∀ stmts ∈ body, Sees f stmts)
    (hjumps : ∀ (i : Nat) instr target, program[i]? = some instr → instr.target? = some target → i < target)
    (hconst : ConstantsRendered program) (hbody : Emitted args program body) (hsize : program.length ≤ f.stackSize)
    {fuel : Nat} {t' : S} (hsim : Sim t m s) (hhonest : HonestRun lib program host fuel m)
    (hrun : runTyped program host [] fuel m = some (.ok (v, t'))) :
    ∃ d, runFrom lib f body fuel m.ip s = some d ∧ IsDouble v d := by
  induction fuel generalizing m s with
  | zero => cases hrun
  | succ fuel ih =>
    unfold runTyped at hrun
    cases hinstr : program[m.ip]? with
    | none =>
      rw [hinstr] at hrun
      cases hrun
    | some instr =>
      rw [hinstr] at hrun
      dsimp only at hrun
      obtain ⟨stmts, hstmts, hemit⟩ := hbody m.ip instr hinstr
      have hlt : m.ip < program.length := (List.getElem?_eq_some_iff.mp hinstr).1
      cases hstep : step program host [] m instr with
      | error fault =>
        rw [hstep] at hrun
        cases hrun
      | ok st =>
        rw [hstep] at hrun
        obtain ⟨flow, hflow, hfollows⟩ := step_follows hb
          (hsees stmts (List.mem_of_getElem? hstmts)) hsim (lt_of_lt_of_le hlt hsize)
          (fun target htarget => hjumps m.ip instr target hinstr htarget)
          (fun d hd => hconst d (hd ▸ List.mem_of_getElem? hinstr)) hemit hstep
          (fun m' hm' => (hhonest instr m' hinstr (hm' ▸ hstep)).1)
        simp only [runFrom, hstmts, hflow]
        cases hfollows with
        | @next m' s' hip hsim' =>
          obtain ⟨d, hd, hv⟩ := ih hsim' (hhonest instr m' hinstr hstep).2 hrun
          exact ⟨d, by rw [← hip]; exact hd, hv⟩
        | @jump m' s' hsim' => exact ih hsim' (hhonest instr m' hinstr hstep).2 hrun
        | halt hv =>
          cases hrun
          exact ⟨_, rfl, hv⟩

end
end Cxpr.Ir.Codegen
