import Cxpr.Ir.Compile

/-! The shape of the code each compile pattern appends, with its jumps patched. A property of appended code is stated
    over the address it is placed at and the instructions, so that patterns compose. -/

namespace Cxpr.Ir
variable {D : Type}

def Appends (c : Compile D) (P : Nat → List (Instr D) → Prop) : Prop :=
  ∀ p p', c p = .ok p' → ∃ code, p' = p ++ code ∧ P p.length code

section
variable {c t e l r : Compile D} {P Q R : Nat → List (Instr D) → Prop} {instr : Instr D}

theorem Appends.mono (h : Appends c P) (hPQ : ∀ b code, P b code → Q b code) : Appends c Q := by
  intro p p' hp
  obtain ⟨code, hcode, hP⟩ := h p p' hp
  exact ⟨code, hcode, hPQ _ _ hP⟩

theorem appends_emit : Appends (emit instr) fun _ code => code = [instr] := by
  intro p p' hp
  cases hp
  exact ⟨[instr], rfl, rfl⟩

theorem appends_error {err : Error} : Appends (fun _ : Program D => .error err) P := by
  intro p p' hp
  cases hp

theorem appends_compileAll_nil : Appends (compileAll ([] : List (Compile D))) fun _ code => code = [] := by
  intro p p' hp
  cases hp
  exact ⟨[], by simp, rfl⟩

theorem appends_compileAll_cons {cs : List (Compile D)} (hc : Appends c P) (hcs : Appends (compileAll cs) Q) :
    Appends (compileAll (c :: cs)) fun b code =>
      ∃ cc ccs, code = cc ++ ccs ∧ P b cc ∧ Q (b + cc.length) ccs := by
  intro p p' hp
  obtain ⟨p₁, h₁, hp⟩ := bind_eq_ok.mp hp
  obtain ⟨cc, rfl, hP⟩ := hc p p₁ h₁
  obtain ⟨ccs, rfl, hQ⟩ := hcs _ _ hp
  exact ⟨cc ++ ccs, by simp, cc, ccs, rfl, hP, by simpa using hQ⟩

theorem appends_emitAfter {acts : List (Compile D)} (h : Appends (compileAll acts) P) :
    Appends (emitAfter acts instr) fun b code => ∃ cc, code = cc ++ [instr] ∧ P b cc := by
  intro p p' hp
  obtain ⟨p₁, h₁, hp⟩ := bind_eq_ok.mp hp
  obtain ⟨cc, rfl, hP⟩ := h p p₁ h₁
  cases hp
  exact ⟨cc ++ [instr], by simp, cc, rfl, hP⟩

theorem appends_unary (hc : Appends c P) :
    Appends (emitAfter [c] instr) fun b code => ∃ cc, code = cc ++ [instr] ∧ P b cc := by
  refine (appends_emitAfter (appends_compileAll_cons hc appends_compileAll_nil)).mono ?_
  rintro b _ ⟨_, rfl, cc, _, rfl, hP, rfl⟩
  exact ⟨cc, by simp, hP⟩

theorem appends_binary (hl : Appends l P) (hr : Appends r Q) :
    Appends (emitAfter [l, r] instr) fun b code =>
      ∃ cl cr, code = cl ++ cr ++ [instr] ∧ P b cl ∧ Q (b + cl.length) cr := by
  refine (appends_emitAfter
    (appends_compileAll_cons hl (appends_compileAll_cons hr appends_compileAll_nil))).mono ?_
  rintro b _ ⟨_, rfl, cl, _, rfl, hP, cr, _, rfl, hQ, rfl⟩
  exact ⟨cl, cr, by simp, hP, hQ⟩

theorem patchTarget_append (p q : Program D) (i target : Nat) :
    patchTarget (p ++ q) (p.length + i) target = p ++ patchTarget q i target := by
  induction p with
  | nil => simp
  | cons j p ih => simpa [patchTarget, Nat.add_right_comm _ 1 i] using ih

theorem patchTarget_append_self (p q : Program D) (target : Nat) :
    patchTarget (p ++ q) p.length target = p ++ patchTarget q 0 target :=
  patchTarget_append p q 0 target

theorem patchTarget_cons_zero (instr : Instr D) (q : Program D) (target : Nat) :
    patchTarget (instr :: q) 0 target = instr.setTarget target :: q := rfl

theorem patchTarget_cons_succ (instr : Instr D) (q : Program D) (i target : Nat) :
    patchTarget (instr :: q) (i + 1) target = instr :: patchTarget q i target := rfl

def ternaryCode (b : Nat) (cc ct ce : List (Instr D)) : List (Instr D) :=
  let else_ := b + cc.length + 1 + ct.length + 1
  cc ++ [.jumpIfFalse else_] ++ ct ++ [.jump (else_ + ce.length)] ++ ce

theorem appends_emitTernary (hc : Appends c P) (ht : Appends t Q) (he : Appends e R) :
    Appends (emitTernary c t e) fun b code =>
      ∃ cc ct ce, code = ternaryCode b cc ct ce ∧ P b cc ∧ Q (b + cc.length + 1) ct ∧
        R (b + cc.length + 1 + ct.length + 1) ce := by
  intro p p' hp
  obtain ⟨p₁, h₁, hp⟩ := bind_eq_ok.mp hp
  obtain ⟨cc, rfl, hP⟩ := hc p p₁ h₁
  obtain ⟨p₂, h₂, hp⟩ := bind_eq_ok.mp hp
  cases h₂
  obtain ⟨p₃, h₃, hp⟩ := bind_eq_ok.mp hp
  obtain ⟨ct, rfl, hQ⟩ := ht _ _ h₃
  obtain ⟨p₄, h₄, hp⟩ := bind_eq_ok.mp hp
  cases h₄
  obtain ⟨p₅, h₅, hp⟩ := bind_eq_ok.mp hp
  simp only [nextIndex, List.append_assoc, List.singleton_append, List.length_append, List.length_cons,
    patchTarget_append, patchTarget_append_self] at hp h₅
  obtain ⟨ce, rfl, hR⟩ := he _ _ h₅
  cases hp
  refine ⟨ternaryCode p.length cc ct ce, ?_, cc, ct, ce, rfl, hP, by simpa [Nat.add_assoc] using hQ, ?_⟩
  · simp [ternaryCode, patchTarget_append, patchTarget_append_self, patchTarget_cons_succ, patchTarget_cons_zero,
      Instr.setTarget]
    omega
  · convert hR using 1
    simp [patchTarget_cons_zero]
    omega

def andCode [Double D] (b : Nat) (cl cr : List (Instr D)) : List (Instr D) :=
  let false_ := b + cl.length + 1 + cr.length + 3
  cl ++ [.jumpIfFalse false_] ++ cr ++ [.jumpIfFalse false_] ++ [.pushBool Double.one] ++ [.jump (false_ + 1)] ++
    [.pushBool Double.zero]

theorem appends_emitAnd [Double D] (hl : Appends l P) (hr : Appends r Q) :
    Appends (emitAnd l r) fun b code =>
      ∃ cl cr, code = andCode b cl cr ∧ P b cl ∧ Q (b + cl.length + 1) cr := by
  intro p p' hp
  obtain ⟨p₁, h₁, hp⟩ := bind_eq_ok.mp hp
  obtain ⟨cl, rfl, hP⟩ := hl p p₁ h₁
  obtain ⟨p₂, h₂, hp⟩ := bind_eq_ok.mp hp
  cases h₂
  obtain ⟨p₃, h₃, hp⟩ := bind_eq_ok.mp hp
  obtain ⟨cr, rfl, hQ⟩ := hr _ _ h₃
  refine ⟨andCode p.length cl cr, ?_, cl, cr, rfl, hP, by simpa [Nat.add_assoc] using hQ⟩
  simp only [emit, nextIndex, bind, Except.bind, pure, Except.pure, Except.ok.injEq] at hp
  subst hp
  simp [andCode, patchTarget_append, patchTarget_append_self, patchTarget_cons_succ, patchTarget_cons_zero,
    Instr.setTarget]
  omega

def orCode [Double D] (b : Nat) (cl cr : List (Instr D)) : List (Instr D) :=
  let true_ := b + cl.length + 1 + cr.length + 3
  cl ++ [.jumpIfTrue true_] ++ cr ++ [.jumpIfFalse (true_ + 2)] ++ [.pushBool Double.one] ++ [.jump (true_ + 3)] ++
    [.pushBool Double.one] ++ [.jump (true_ + 3)] ++ [.pushBool Double.zero]

theorem appends_emitOr [Double D] (hl : Appends l P) (hr : Appends r Q) :
    Appends (emitOr l r) fun b code =>
      ∃ cl cr, code = orCode b cl cr ∧ P b cl ∧ Q (b + cl.length + 1) cr := by
  intro p p' hp
  obtain ⟨p₁, h₁, hp⟩ := bind_eq_ok.mp hp
  obtain ⟨cl, rfl, hP⟩ := hl p p₁ h₁
  obtain ⟨p₂, h₂, hp⟩ := bind_eq_ok.mp hp
  cases h₂
  obtain ⟨p₃, h₃, hp⟩ := bind_eq_ok.mp hp
  obtain ⟨cr, rfl, hQ⟩ := hr _ _ h₃
  refine ⟨orCode p.length cl cr, ?_, cl, cr, rfl, hP, by simpa [Nat.add_assoc] using hQ⟩
  simp only [emit, nextIndex, bind, Except.bind, pure, Except.pure, Except.ok.injEq] at hp
  subst hp
  simp [orCode, patchTarget_append, patchTarget_append_self, patchTarget_cons_succ, patchTarget_cons_zero,
    Instr.setTarget]
  omega

theorem appends_lookback {offset : Nat} (hc : Appends c P) :
    Appends (fun program => do
      let program ← emit (.lookbackPush offset) program
      emit .lookbackPop (← c program)) fun b code =>
      ∃ cc, code = [.lookbackPush offset] ++ cc ++ [.lookbackPop] ∧ P (b + 1) cc := by
  intro p p' hp
  obtain ⟨p₁, h₁, hp⟩ := bind_eq_ok.mp hp
  cases h₁
  obtain ⟨p₂, h₂, hp⟩ := bind_eq_ok.mp hp
  obtain ⟨cc, rfl, hP⟩ := hc _ _ h₂
  cases hp
  exact ⟨_, by simp, cc, rfl, by simpa using hP⟩

end
end Cxpr.Ir
