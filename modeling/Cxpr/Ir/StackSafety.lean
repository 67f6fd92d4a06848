import Cxpr.Ir.Typed
import Cxpr.Ir.WellFormed

/-! The typed executor on compiled programs: it never runs into its own stack and end-of-program complaints. -/

namespace Cxpr.Ir
open StackCode StackCode.Isa

/-! ### One instruction -/

section
variable {S D : Type}

/-- The computation ends in a value with the property or in an error that is no complaint about the stack or the
    end of the program. -/
def Safe {α : Type} (r : Except Fault α) (Q : α → Prop) : Prop :=
  match r with
  | .ok a => Q a
  | .error (.raised _) => True
  | .error _ => False

theorem Safe.bind {α β : Type} {r : Except Fault α} {k : α → Except Fault β} {P : α → Prop} {Q : β → Prop}
    (h : Safe r P) (hk : ∀ a, P a → Safe (k a) Q) : Safe (r >>= k) Q := by
  cases r with
  | ok a => exact hk a h
  | error f => cases f <;> exact h

theorem Safe.mono {α : Type} {r : Except Fault α} {P Q : α → Prop} (h : Safe r P) (hPQ : ∀ a, P a → Q a) :
    Safe r Q := by
  cases r with
  | ok a => exact hPQ a h
  | error f => cases f <;> exact h

section
variable {m : Machine S D} {v : Value D} {ip n : Nat}

def GoesTo (ip n : Nat) : Step S D → Prop
  | .next m => m.ip = ip ∧ m.stack.length = n
  | .halt _ _ => False

theorem safe_pushNext : Safe (m.pushNext v) (GoesTo (m.ip + 1) (m.stack.length + 1)) := by
  unfold Machine.pushNext Machine.push
  split
  · trivial
  · exact ⟨rfl, rfl⟩

theorem safe_pop1 (h : 1 ≤ m.stack.length) :
    Safe m.pop1 fun r => r.2.ip = m.ip ∧ r.2.stack.length = m.stack.length - 1 := by
  unfold Machine.pop1
  split
  · rename_i hs
    exact ⟨rfl, by simp [hs]⟩
  · rename_i hs
    simp [hs] at h

theorem safe_pop2 (h : 2 ≤ m.stack.length) :
    Safe m.pop2 fun r => r.2.2.ip = m.ip ∧ r.2.2.stack.length = m.stack.length - 2 := by
  unfold Machine.pop2
  split
  · rename_i hs
    exact ⟨rfl, by simp [hs]⟩
  · rename_i hs
    match hm : m.stack, h with
    | a :: b :: rest, _ => exact absurd hm (hs a b rest)

theorem safe_popArgs (h : n ≤ m.stack.length) :
    Safe (m.popArgs n) fun r => r.2.ip = m.ip ∧ r.2.stack.length = m.stack.length - n := by
  unfold Machine.popArgs
  rw [if_neg (by omega)]
  exact ⟨rfl, by simp⟩

theorem safe_run {α : Type} (eff : Eff S α) :
    Safe (Host.run m eff) fun r => r.2.ip = m.ip ∧ r.2.stack.length = m.stack.length := by
  unfold Host.run
  split
  · trivial
  · exact ⟨rfl, rfl⟩

theorem safe_loadValue {host : Host S D} {instr : Instr D} {eff : Eff S (Value D)} :
    Safe (loadValue host m instr eff) fun r => r.2.ip = m.ip ∧ r.2.stack.length = m.stack.length := by
  unfold loadValue
  split
  · split
    · exact safe_run _
    · trivial
  · exact safe_run _

end

section
variable [Double D]

theorem safe_execArith (op : Arith) (a b : Value D) : Safe (execArith op a b) fun _ => True := by
  unfold execArith
  split
  · split
    case h_4 | h_5 => split <;> trivial
    all_goals trivial
  · split <;> trivial

theorem safe_execCmp (op : Cmp) (a b : Value D) : Safe (execCmp op a b) fun _ => True := by
  unfold execCmp
  split
  all_goals first
    | (split <;> trivial)
    | (split
       · trivial
       · split <;> trivial)

theorem safe_execIntrinsic (op : Intrinsic) (a : Value D) : Safe (execIntrinsic op a) fun _ => True := by
  unfold execIntrinsic
  split
  · split <;> trivial
  · trivial
  · trivial

theorem safe_execSquare (a : Value D) : Safe (execSquare a) fun _ => True := by
  unfold execSquare
  split <;> trivial

theorem safe_execClamp (a lo hi : Value D) : Safe (execClamp a lo hi) fun _ => True := by
  unfold execClamp
  split <;> trivial

theorem safe_execIndex (a b : Value D) : Safe (execIndex a b) fun _ => True := by
  unfold execIndex
  split
  · split
    · trivial
    · split <;> trivial
  · trivial

omit [Double D] in
theorem safe_producedField (v : Value D) (field : String) : Safe (producedField v field) fun _ => True := by
  unfold producedField
  split
  · split <;> trivial
  · trivial

variable {m : Machine S D} {ip : Nat}

omit [Double D] in
theorem safe_push {v : Value D} (hip : m.ip = ip) :
    Safe (m.pushNext v) (GoesTo (ip + 1) (m.stack.length + 1)) := hip ▸ safe_pushNext

omit [Double D] in
theorem safe_thenPush {r : Except Fault (Value D)} (h : Safe r fun _ => True)
    (hip : m.ip = ip) : Safe (r >>= fun v => m.pushNext v) (GoesTo (ip + 1) (m.stack.length + 1)) :=
  h.bind fun _ _ => safe_push hip

omit [Double D] in
theorem safe_runThen {α : Type} {eff : Eff S α}
    {k : α × Machine S D → Except Fault (Step S D)} (hip : m.ip = ip)
    (hk : ∀ a m₁, m₁.ip = ip → Safe (k (a, m₁)) (GoesTo (ip + 1) (m₁.stack.length + 1))) :
    Safe (Host.run m eff >>= k) (GoesTo (ip + 1) (m.stack.length + 1)) := by
  refine (safe_run eff).bind fun r hr => ?_
  obtain ⟨a, m₁⟩ := r
  obtain ⟨hip₁, hlen⟩ := hr
  simp only at hip₁ hlen
  rw [← hlen]
  exact hk a m₁ (hip₁.trans hip)

omit [Double D] in
theorem safe_execNative {host : Host S D} {func : FuncEntry D} {payload : Ast D}
    {args : List (Value D)} {f : List D → D} :
    Safe (execNative host m func payload args f) (GoesTo (m.ip + 1) (m.stack.length + 1)) := by
  unfold execNative
  split
  · trivial
  · refine safe_runThen rfl fun memo m₁ hip => ?_
    dsimp only
    split
    · exact safe_push hip
    · exact safe_runThen hip fun _ m₂ hip₂ => safe_push hip₂

/-- Where one instruction leaves the machine: at the next instruction, at its jump target, or behind the field access
    that a producer call has consumed. -/
def Leaves (program : Program D) (m : Machine S D) (instr : Instr D) : Step S D → Prop
  | .halt _ _ => instr = .ret
  | .next m' =>
    m'.stack.length = m.stack.length - instr.pops + instr.pushes ∧
    ((instr.falls = true ∧ m'.ip = m.ip + 1) ∨ instr.target? = some m'.ip ∨
      (Plain instr.pops instr ∧ m'.ip = m.ip + 2 ∧ ∃ field, program[m.ip + 1]? = some (.getField field)))

omit [Double D] in
theorem GoesTo.leaves {program : Program D} {instr : Instr D} {k : Nat}
    (hf : instr.falls = true) (hk : m.stack.length - instr.pops + instr.pushes = k) :
    ∀ s : Step S D, GoesTo (m.ip + 1) k s → Leaves program m instr s
  | .next _, ⟨hip, hlen⟩ => ⟨by omega, .inl ⟨hf, hip⟩⟩

section
variable {program : Program D} {host : Host S D} {locals : List D} {m : Machine S D} {instr : Instr D} {n : Nat}

omit [Double D] in
theorem leaves_of_push {r : Except Fault (Step S D)} (hi : Plain 0 instr)
    (h : Safe r (GoesTo (m.ip + 1) (m.stack.length + 1))) : Safe r (Leaves program m instr) :=
  h.mono (GoesTo.leaves hi.falls (by rw [hi.pops, hi.pushes]; rfl))

omit [Double D] in
theorem leaves_of_pop1 {k : Value D × Machine S D → Except Fault (Step S D)} (hi : Plain 1 instr)
    (hpops : instr.pops ≤ m.stack.length)
    (hk : ∀ a m₁, m₁.ip = m.ip → Safe (k (a, m₁)) (GoesTo (m.ip + 1) (m₁.stack.length + 1))) :
    Safe (m.pop1 >>= k) (Leaves program m instr) := by
  rw [hi.pops] at hpops
  refine (safe_pop1 hpops).bind fun r hr => ?_
  obtain ⟨a, m₁⟩ := r
  obtain ⟨hip, hlen⟩ := hr
  exact (hk a m₁ hip).mono (GoesTo.leaves hi.falls (by rw [hi.pops, hi.pushes, hlen]))

omit [Double D] in
theorem leaves_of_pop2 {k : Value D × Value D × Machine S D → Except Fault (Step S D)} (hi : Plain 2 instr)
    (hpops : instr.pops ≤ m.stack.length)
    (hk : ∀ a b m₁, m₁.ip = m.ip → Safe (k (a, b, m₁)) (GoesTo (m.ip + 1) (m₁.stack.length + 1))) :
    Safe (m.pop2 >>= k) (Leaves program m instr) := by
  rw [hi.pops] at hpops
  refine (safe_pop2 hpops).bind fun r hr => ?_
  obtain ⟨a, b, m₁⟩ := r
  obtain ⟨hip, hlen⟩ := hr
  exact (hk a b m₁ hip).mono (GoesTo.leaves hi.falls (by rw [hi.pops, hi.pushes, hlen]))

omit [Double D] in
theorem leaves_of_pop3 {k : Value D → Value D → Value D × Machine S D → Except Fault (Step S D)}
    (hi : Plain 3 instr) (hpops : instr.pops ≤ m.stack.length)
    (hk : ∀ a b c m₁, m₁.ip = m.ip → Safe (k a b (c, m₁)) (GoesTo (m.ip + 1) (m₁.stack.length + 1))) :
    Safe (m.pop2 >>= fun r => r.2.2.pop1 >>= k r.1 r.2.1) (Leaves program m instr) := by
  rw [hi.pops] at hpops
  refine (safe_pop2 (m := m) (by omega)).bind fun r hr => ?_
  obtain ⟨a, b, m₁⟩ := r
  obtain ⟨hip, hlen⟩ := hr
  simp only at hip hlen
  refine (safe_pop1 (m := m₁) (by omega)).bind fun r hr => ?_
  obtain ⟨c, m₂⟩ := r
  obtain ⟨hip₂, hlen₂⟩ := hr
  simp only at hip₂ hlen₂
  refine (hk a b c m₂ (hip₂.trans hip)).mono (GoesTo.leaves hi.falls ?_)
  rw [hi.pops, hi.pushes]
  omega

omit [Double D] in
theorem leaves_of_popArgs {k : List (Value D) × Machine S D → Except Fault (Step S D)} (hi : Plain n instr)
    (hpops : instr.pops ≤ m.stack.length)
    (hk : ∀ args m₁, m₁.ip = m.ip → Safe (k (args, m₁)) (GoesTo (m.ip + 1) (m₁.stack.length + 1))) :
    Safe (m.popArgs n >>= k) (Leaves program m instr) := by
  rw [hi.pops] at hpops
  refine (safe_popArgs hpops).bind fun r hr => ?_
  obtain ⟨args, m₁⟩ := r
  obtain ⟨hip, hlen⟩ := hr
  exact (hk args m₁ hip).mono (GoesTo.leaves hi.falls (by rw [hi.pops, hi.pushes, hlen]))

omit [Double D] in
theorem safe_load {eff : Eff S (Value D)} {k : Value D × Machine S D → Except Fault (Step S D)} (hi : Plain 0 instr)
    (hk : ∀ v m₁, m₁.ip = m.ip → Safe (k (v, m₁)) (GoesTo (m.ip + 1) (m₁.stack.length + 1))) :
    Safe (loadValue host m instr eff >>= k) (Leaves program m instr) := by
  refine leaves_of_push hi (safe_loadValue.bind fun r hr => ?_)
  obtain ⟨v, m₁⟩ := r
  obtain ⟨hip, hlen⟩ := hr
  simp only at hip hlen
  rw [← hlen]
  exact hk v m₁ hip

def ternaryOf (f : D → D → D → D) : List D → D
  | [x, y, z] => f x y z
  | _ => Double.zero

theorem step_safe (hpops : instr.pops ≤ m.stack.length) (hret : instr = .ret → m.stack.length = 1) :
    Safe (step program host locals m instr) (Leaves program m instr) := by
  cases instr with
  | pushConst | pushInt64 | pushBool | pushString => exact leaves_of_push ⟨rfl, rfl, rfl, rfl⟩ safe_pushNext
  | loadLocal | loadLocalSquare =>
    simp only [step]
    split
    · exact leaves_of_push ⟨rfl, rfl, rfl, rfl⟩ safe_pushNext
    · trivial
  | loadVar | loadField | loadNamedField | loadChain =>
    exact safe_load ⟨rfl, rfl, rfl, rfl⟩ fun v m₁ hip => safe_push hip
  | loadVarSquare | loadFieldSquare =>
    exact safe_load ⟨rfl, rfl, rfl, rfl⟩ fun v m₁ hip => safe_thenPush (safe_execSquare v) hip
  | loadParam | loadParamSquare | callAst | callProducerConstField =>
    exact leaves_of_push ⟨rfl, rfl, rfl, rfl⟩ (safe_runThen rfl fun v m₁ hip => safe_push hip)
  | buildArray n => exact leaves_of_popArgs ⟨rfl, rfl, rfl, rfl⟩ hpops fun args m₁ hip => safe_push hip
  | index =>
    exact leaves_of_pop2 ⟨rfl, rfl, rfl, rfl⟩ hpops fun a b m₁ hip => safe_thenPush (safe_execIndex a b) hip
  | arith op =>
    exact leaves_of_pop2 ⟨rfl, rfl, rfl, rfl⟩ hpops fun a b m₁ hip => safe_thenPush (safe_execArith op a b) hip
  | cmp op =>
    exact leaves_of_pop2 ⟨rfl, rfl, rfl, rfl⟩ hpops fun a b m₁ hip => safe_thenPush (safe_execCmp op a b) hip
  | square =>
    exact leaves_of_pop1 ⟨rfl, rfl, rfl, rfl⟩ hpops fun a m₁ hip => safe_thenPush (safe_execSquare a) hip
  | intrinsic op =>
    exact leaves_of_pop1 ⟨rfl, rfl, rfl, rfl⟩ hpops fun a m₁ hip => safe_thenPush (safe_execIntrinsic op a) hip
  | not =>
    refine leaves_of_pop1 ⟨rfl, rfl, rfl, rfl⟩ hpops fun a m₁ hip => ?_
    dsimp only
    split
    · exact safe_push hip
    · trivial
  | getField field =>
    refine leaves_of_pop1 ⟨rfl, rfl, rfl, rfl⟩ hpops fun a m₁ hip => ?_
    dsimp only
    split
    · split
      · exact safe_push hip
      · trivial
    · trivial
  | clamp =>
    exact leaves_of_pop3 (k := fun lo hi r => execClamp r.1 lo hi >>= fun v => r.2.pushNext v) ⟨rfl, rfl, rfl, rfl⟩
      hpops fun lo hi a m₁ hip => safe_thenPush (safe_execClamp a lo hi) hip
  | callUnary func f payload =>
    exact leaves_of_pop1 ⟨rfl, rfl, rfl, rfl⟩ hpops fun a m₁ hip => hip ▸ safe_execNative
  | callBinary func f payload =>
    exact leaves_of_pop2 ⟨rfl, rfl, rfl, rfl⟩ hpops fun a b m₁ hip => hip ▸ safe_execNative
  | callTernary func f payload =>
    exact leaves_of_pop3 (k := fun b c r => execNative host r.2 func payload [r.1, b, c] (ternaryOf f)) ⟨rfl, rfl, rfl, rfl⟩
      hpops fun b c a m₁ hip => hip ▸ safe_execNative
  | callFunc func payload n =>
    refine leaves_of_popArgs ⟨rfl, rfl, rfl, rfl⟩ hpops fun args m₁ hip => ?_
    dsimp only
    split
    · trivial
    · refine safe_runThen hip fun memo m₂ hip₂ => ?_
      dsimp only
      split
      · exact safe_push hip₂
      · exact safe_runThen hip₂ fun v m₃ hip₃ => safe_runThen hip₃ fun _ m₄ hip₄ => safe_push hip₄
  | callDefined func payload n =>
    refine leaves_of_popArgs ⟨rfl, rfl, rfl, rfl⟩ hpops fun args m₁ hip => ?_
    refine safe_runThen hip fun memo m₂ hip₂ => ?_
    dsimp only
    split
    · exact safe_push hip₂
    · exact safe_runThen hip₂ fun v m₃ hip₃ => safe_runThen hip₃ fun _ m₄ hip₄ => safe_push hip₄
  | lookbackResolve target offset =>
    simp only [step]
    split
    · trivial
    split
    · trivial
    exact leaves_of_push ⟨rfl, rfl, rfl, rfl⟩ (safe_runThen rfl fun v m₁ hip => safe_push hip)
  | callProducer func name n | callProducerConst func name n =>
    refine (safe_popArgs hpops).bind fun r hr => ?_
    obtain ⟨args, m₁⟩ := r
    obtain ⟨hip, hlen⟩ := hr
    refine (safe_run _).bind fun r hr => ?_
    obtain ⟨produced, m₂⟩ := r
    obtain ⟨hip₂, hlen₂⟩ := hr
    simp only [Instr.pops] at hip hlen hip₂ hlen₂ ⊢
    rw [hip₂, hip]
    split
    · rename_i field hfield
      -- the producer call has run the field access behind it too
      refine (safe_producedField produced field).bind fun v _ => ?_
      refine safe_pushNext.mono fun s hs => ?_
      cases s with
      | halt => exact hs.elim
      | next m' =>
        obtain ⟨hip', hlen'⟩ := hs
        refine ⟨?_, .inr (.inr ⟨⟨rfl, rfl, rfl, rfl⟩, hip', field, hfield⟩)⟩
        rw [hlen', hlen₂, hlen]
        rfl
    · refine (safe_push (hip₂.trans hip)).mono (GoesTo.leaves rfl ?_)
      rw [hlen₂, hlen]
      rfl
  | jump target => exact ⟨by simp [Instr.pops, Instr.pushes], .inr (.inl rfl)⟩
  | jumpIfFalse target | jumpIfTrue target =>
    refine (safe_pop1 hpops).bind fun r hr => ?_
    obtain ⟨a, m₁⟩ := r
    obtain ⟨hip, hlen⟩ := hr
    simp only at hip hlen ⊢
    split
    · rename_i b
      cases b with
      | true => exact ⟨by simp [hlen, Instr.pops, Instr.pushes], by simp [hip, Instr.falls, Instr.target?]⟩
      | false => exact ⟨by simp [hlen, Instr.pops, Instr.pushes], by simp [hip, Instr.falls, Instr.target?]⟩
    · trivial
  | lookbackPush offset =>
    simp only [step]
    split
    · trivial
    split
    · trivial
    exact ⟨by simp [Instr.pops, Instr.pushes], .inl ⟨rfl, rfl⟩⟩
  | lookbackPop =>
    simp only [step]
    split
    · trivial
    split
    · trivial
    exact ⟨by simp [Instr.pops, Instr.pushes], .inl ⟨rfl, rfl⟩⟩
  | storeLocal index => trivial
  | ret =>
    refine (safe_pop1 hpops).bind fun r hr => ?_
    obtain ⟨v, m₁⟩ := r
    obtain ⟨-, hlen⟩ := hr
    have hempty : m₁.stack.isEmpty = true := by simpa [hret rfl] using hlen
    simp only [hempty]
    rfl

end

section
variable {code : Program D} {host : Host S D} {locals : List D} {m : Machine S D}

omit [Double D] in
def Stands (code : Program D) (m : Machine S D) : Prop :=
  m.ip ≤ code.length ∧ (m.stack.length : Int) = depth (code.take m.ip)

omit [Double D] in
theorem Stands.leaves {instr : Instr D} {m' : Machine S D} (hcode : Checked 0 0 code) (hm : Stands code m)
    (hi : code[m.ip]? = some instr) (hs : Leaves (code ++ [Instr.ret]) m instr (.next m')) :
    Stands code m' ∧ m.ip < m'.ip := by
  obtain ⟨-, hlen⟩ := hm
  have hlt : m.ip < code.length := (List.getElem?_eq_some_iff.mp hi).1
  obtain ⟨⟨hpops, -⟩, htarget⟩ := hcode m.ip instr hi
  rw [pops_eq, Int.zero_add, ← hlen] at hpops
  obtain ⟨hlen', ⟨hfalls, hip⟩ | hjump | ⟨hplain, hip, field, hfield⟩⟩ := hs
  · refine ⟨⟨by omega, ?_⟩, by omega⟩
    rw [hip, depth_take_succ hi, next_eq, if_pos hfalls, hlen', ← hlen]
    omega
  · obtain ⟨hfwd, hend, hdepth⟩ := htarget m'.ip hjump
    refine ⟨⟨by omega, ?_⟩, by omega⟩
    rw [Nat.sub_zero] at hdepth
    rw [hdepth, hlen', ← hlen, pops_eq, pushes_eq]
    omega
  · -- the field access behind the producer call neither adds nor removes a value
    have hlt' : m.ip + 1 < code.length := by
      by_contra hge
      rw [show m.ip + 1 = code.length by omega, List.getElem?_concat_length] at hfield
      cases hfield
    rw [List.getElem?_append_left hlt'] at hfield
    refine ⟨⟨by omega, ?_⟩, by omega⟩
    have hnext : next (.getField field : Instr D) = 0 := rfl
    rw [hip, depth_take_succ hfield, depth_take_succ hi, hnext, hplain.next_eq, hlen', hplain.pushes, ← hlen]
    omega

theorem runTyped_safe (hdepth : depth code = 1) (hcode : Checked 0 0 code) :
    ∀ fuel (m : Machine S D), Stands code m → code.length - m.ip < fuel →
      ∃ r, runTyped (code ++ [Instr.ret]) host locals fuel m = some r ∧ Safe r fun _ => True := by
  intro fuel
  induction fuel with
  | zero =>
    intro m hm hfuel
    omega
  | succ fuel ih =>
    intro m hm hfuel
    obtain ⟨instr, hi⟩ : ∃ instr, (code ++ [Instr.ret])[m.ip]? = some instr :=
      ⟨_, List.getElem?_eq_getElem (by have := hm.1; simp; omega)⟩
    have hpops : instr.pops ≤ m.stack.length := by
      have := pops_le_depth hdepth hcode hi
      rw [← hm.2] at this
      omega
    have hret : instr = .ret → m.stack.length = 1 := by
      rintro rfl
      have hlast := (wellFormed_of_checked hdepth hcode).returns m.ip hi
      have hlen := hm.2
      rw [List.take_of_length_le (by simp at hlast; omega), hdepth] at hlen
      omega
    have hstep : Safe (step (code ++ [Instr.ret]) host locals m instr) (Leaves (code ++ [Instr.ret]) m instr) :=
      step_safe hpops hret
    unfold runTyped
    rw [hi]
    simp only
    cases hr : step (code ++ [Instr.ret]) host locals m instr with
    | error f =>
      rw [hr] at hstep
      exact ⟨_, rfl, by cases f <;> exact hstep⟩
    | ok s =>
      rw [hr] at hstep
      cases s with
      | halt v h => exact ⟨_, rfl, trivial⟩
      | next m' =>
        have hlt : m.ip < code.length := by
          by_contra hge
          rw [show m.ip = code.length by have := hm.1; omega, List.getElem?_concat_length,
            Option.some.injEq] at hi
          subst hi
          obtain ⟨-, ⟨hf, -⟩ | ht | ⟨hplain, -⟩⟩ := hstep
          · cases hf
          · cases ht
          · cases hplain.falls
        rw [List.getElem?_append_left hlt] at hi
        obtain ⟨hm', hfwd⟩ := hm.leaves hcode hi hstep
        exact ih m' hm' (by omega)

theorem execTyped_safe (hdepth : depth code = 1) (hcode : Checked 0 0 code) (s : S) :
    ∃ r, execTyped (code ++ [Instr.ret]) host locals s = some r ∧ Safe r fun _ => True := by
  unfold execTyped
  rw [if_neg (by simp)]
  exact runTyped_safe hdepth hcode _ _ ⟨Nat.zero_le _, rfl⟩ (by simp only [List.length_append, List.length_singleton]; omega)

end

/-- Every compiled program is well formed, and under every host, whatever locals and state it starts from, the typed
    executor ends on it with neither an underflow, nor values left at the `RETURN`, nor a run past the end. -/
theorem compile_wellFormed {ast : Ast D} {reg : Registry D} {program : Program D}
    (h : compile ast reg = .ok program) :
    WellFormed program ∧
    ∀ (S : Type) (host : Host S D) (locals : List D) (s : S), ∃ r, execTyped program host locals s = some r ∧
      r ≠ .error .stackUnderflow ∧ r ≠ .error .stackNotEmpty ∧ r ≠ .error .fellOffEnd := by
  obtain ⟨code, rfl, hdepth, hcode⟩ := compileWithLocals_code h
  refine ⟨wellFormed_of_checked hdepth hcode, fun S host locals s => ?_⟩
  obtain ⟨r, hr, hsafe⟩ : ∃ r, execTyped (code ++ [.ret]) host locals s = some r ∧ Safe r fun _ => True :=
    execTyped_safe hdepth hcode s
  refine ⟨r, hr, ?_, ?_, ?_⟩ <;> rintro rfl <;> exact hsafe

end
end

theorem wellFormed_square_ternary :
    WellFormed (D := Int) [.loadVar "x" (some (.identifier "x")), .jumpIfFalse 6,
      .loadVar "y" (some (.identifier "y")), .jumpIfFalse 6, .pushBool 1, .jump 7, .pushBool 0, .jumpIfFalse 10,
      .loadVarSquare "x", .jump 11, .pushConst 0, .ret] := by
  have h : compile (.ternary (.binary .and (.identifier "x") (.identifier "y"))
    (.binary .star (.identifier "x") (.identifier "x")) (.number (0 : Int))) {} = .ok _ := rfl
  exact (compile_wellFormed h).1

end Cxpr.Ir
