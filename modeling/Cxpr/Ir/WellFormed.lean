import Cxpr.Ir.Shape
import Cxpr.Lib.StackCode

/-! Compiled programs are well formed: whatever the node, the registry and the inlined bodies, the compiler appends
    code that checks against the depth of its linear scan and leaves one value. -/

namespace Cxpr.Ir
open StackCode StackCode.Isa

/-! ### Stack effects -/

namespace Instr
variable {D : Type}

def pops : Instr D → Nat
  | .buildArray n | .callFunc _ _ n | .callDefined _ _ n | .callProducer _ _ n | .callProducerConst _ _ n => n
  | .arith _ | .cmp _ | .index | .callBinary _ _ _ => 2
  | .square | .not | .intrinsic _ | .getField _ | .callUnary _ _ _ | .jumpIfFalse _ | .jumpIfTrue _
  | .storeLocal _ | .ret => 1
  | .clamp | .callTernary _ _ _ => 3
  | _ => 0

def pushes : Instr D → Nat
  | .jump _ | .jumpIfFalse _ | .jumpIfTrue _ | .lookbackPush _ | .lookbackPop | .storeLocal _ | .ret => 0
  | _ => 1

def target? : Instr D → Option Nat
  | .jump t | .jumpIfFalse t | .jumpIfTrue t => some t
  | _ => none

def falls : Instr D → Bool
  | .jump _ | .ret => false
  | _ => true

end Instr

/-- The compiler places a jump only behind a value that the code after the jump does not see. -/
instance {D : Type} : Isa (Instr D) where
  pops := Instr.pops
  pushes := Instr.pushes
  target? := Instr.target?
  falls := Instr.falls
  next instr := if instr.falls then instr.pushes - instr.pops else -1
  next_of_falls instr h := by rw [if_pos h]

section
variable {D : Type}

theorem pops_eq (instr : Instr D) : pops instr = instr.pops := rfl
theorem pushes_eq (instr : Instr D) : pushes instr = instr.pushes := rfl
theorem target?_eq (instr : Instr D) : target? instr = instr.target? := rfl
theorem falls_eq (instr : Instr D) : falls instr = instr.falls := rfl
theorem next_eq (instr : Instr D) :
    next instr = if instr.falls then (instr.pushes : Int) - instr.pops else -1 := rfl

@[simp] theorem next_jump (t : Nat) : next (Instr.jump t : Instr D) = -1 := rfl
@[simp] theorem next_jumpIfFalse (t : Nat) : next (Instr.jumpIfFalse t : Instr D) = -1 := rfl
@[simp] theorem next_jumpIfTrue (t : Nat) : next (Instr.jumpIfTrue t : Instr D) = -1 := rfl
@[simp] theorem next_pushBool (v : D) : next (Instr.pushBool v) = 1 := rfl
@[simp] theorem next_lookbackPush (n : Nat) : next (Instr.lookbackPush n : Instr D) = 0 := rfl
@[simp] theorem next_lookbackPop : next (Instr.lookbackPop : Instr D) = 0 := rfl

/-- An instruction that takes `n` operands, leaves one value and goes on. -/
structure Plain (n : Nat) (instr : Instr D) : Prop where
  pops : instr.pops = n
  pushes : instr.pushes = 1
  target? : instr.target? = none
  falls : instr.falls = true

theorem Plain.next_eq {n : Nat} {instr : Instr D} (h : Plain n instr) : next instr = 1 - (n : Int) := by
  rw [Ir.next_eq, if_pos h.falls, h.pushes, h.pops]
  rfl

def Adds (n : Nat) (c : Compile D) : Prop := Appends c fun b code => depth code = n ∧ Checked b 0 code

section
variable {c t e l r : Compile D} {instr : Instr D} {b : Nat} {cc ct ce cl cr : List (Instr D)}

theorem adds_emit (h : Plain 0 instr) : Adds 1 (emit instr) := by
  refine appends_emit.mono ?_
  rintro b _ rfl
  exact ⟨by simp [h.next_eq], Checked.concat checked_nil (by simp [pops_eq, h.pops]) h.target? h.falls⟩

theorem adds_compileAll {acts : List (Compile D)} (h : ∀ c ∈ acts, Adds 1 c) :
    Adds acts.length (compileAll acts) := by
  induction acts with
  | nil =>
    refine appends_compileAll_nil.mono ?_
    rintro b _ rfl
    exact ⟨rfl, checked_nil⟩
  | cons c cs ih =>
    refine (appends_compileAll_cons (h c (by simp)) (ih fun c' hc' => h c' (by simp [hc']))).mono ?_
    rintro b _ ⟨cc, ccs, rfl, ⟨dc, kc⟩, ⟨ds, ks⟩⟩
    exact ⟨by simp [dc, ds, Int.add_comm], kc.append (ks.mono (by omega))⟩

theorem adds_emitAfter {acts : List (Compile D)} (h : ∀ c ∈ acts, Adds 1 c) (hi : Plain acts.length instr) :
    Adds 1 (emitAfter acts instr) := by
  refine (appends_emitAfter (adds_compileAll h)).mono ?_
  rintro b _ ⟨cc, rfl, dc, kc⟩
  exact ⟨by simp [dc, hi.next_eq], kc.concat (by simp [pops_eq, hi.pops, dc]) hi.target? hi.falls⟩

theorem checked_ternaryCode (kc : Checked b 0 cc) (dc : depth cc = 1) (kt : Checked (b + cc.length + 1) 0 ct)
    (dt : depth ct = 1) (ke : Checked (b + cc.length + 1 + ct.length + 1) 0 ce) (de : depth ce = 1) :
    depth (ternaryCode b cc ct ce) = 1 ∧ Checked b 0 (ternaryCode b cc ct ce) := by
  refine ⟨by simp [ternaryCode, dc, dt, de], ?_⟩
  refine checked_iff_piece.mpr (.append (.append (.append (.append ?_ ?_) ?_) ?_) ?_)
  · exact .of_checked kc (by simp) (by simp)
  · refine .jump (ct ++ [Instr.jump _]) ce (by simp; rfl) rfl (by simp; omega) (by simp [pops_eq, Instr.pops, dc]) ?_
    simp [pushes_eq, pops_eq, Instr.pushes, Instr.pops, dt]
  · exact .of_checked kt (by simp; omega) (by simp [dc])
  · refine .jump ce [] (by simp) rfl (by simp; omega) (by simp [pops_eq, Instr.pops, dc, dt]) ?_
    simp [pushes_eq, pops_eq, Instr.pushes, Instr.pops, de]
  · exact .of_checked ke (by simp; omega) (by simp [dc, dt])

theorem adds_emitTernary (hc : Adds 1 c) (ht : Adds 1 t) (he : Adds 1 e) : Adds 1 (emitTernary c t e) := by
  refine (appends_emitTernary hc ht he).mono ?_
  rintro b _ ⟨cc, ct, ce, rfl, ⟨dc, kc⟩, ⟨dt, kt⟩, ⟨de, ke⟩⟩
  exact checked_ternaryCode kc dc kt dt ke de

theorem checked_andCode [Double D] (kl : Checked b 0 cl) (dl : depth cl = 1) (kr : Checked (b + cl.length + 1) 0 cr)
    (dr : depth cr = 1) : depth (andCode b cl cr) = 1 ∧ Checked b 0 (andCode b cl cr) := by
  refine ⟨by simp [andCode, dl, dr], ?_⟩
  refine checked_iff_piece.mpr (.append (.append (.append (.append (.append (.append ?_ ?_) ?_) ?_) ?_) ?_) ?_)
  · exact .of_checked kl (by simp) (by simp)
  · refine .jump (cr ++ [Instr.jumpIfFalse _] ++ [Instr.pushBool Double.one] ++ [Instr.jump _]) [Instr.pushBool Double.zero]
      (by simp; exact ⟨rfl, rfl⟩) rfl (by simp; omega) (by simp [pops_eq, Instr.pops, dl]) ?_
    simp [pushes_eq, pops_eq, Instr.pushes, Instr.pops, dr]
  · exact .of_checked kr (by simp; omega) (by simp [dl])
  · refine .jump ([Instr.pushBool Double.one] ++ [Instr.jump _]) [Instr.pushBool Double.zero] (by simp; rfl) rfl
      (by simp; omega) (by simp [pops_eq, Instr.pops, dl, dr]) ?_
    simp [pushes_eq, pops_eq, Instr.pushes, Instr.pops]
  · exact .instr (by simp [pops_eq, Instr.pops, dl, dr]) rfl rfl
  · refine .jump [.pushBool Double.zero] [] (by simp) rfl (by simp; omega) (by simp [pops_eq, Instr.pops, dl, dr]) ?_
    simp [pushes_eq, pops_eq, Instr.pushes, Instr.pops]
  · exact .instr (by simp [pops_eq, Instr.pops, dl, dr]) rfl rfl

theorem adds_emitAnd [Double D] (hl : Adds 1 l) (hr : Adds 1 r) : Adds 1 (emitAnd l r) := by
  refine (appends_emitAnd hl hr).mono ?_
  rintro b _ ⟨cl, cr, rfl, ⟨dl, kl⟩, ⟨dr, kr⟩⟩
  exact checked_andCode kl dl kr dr

theorem checked_orCode [Double D] (kl : Checked b 0 cl) (dl : depth cl = 1) (kr : Checked (b + cl.length + 1) 0 cr)
    (dr : depth cr = 1) : depth (orCode b cl cr) = 1 ∧ Checked b 0 (orCode b cl cr) := by
  refine ⟨by simp [orCode, dl, dr], ?_⟩
  refine checked_iff_piece.mpr
    (.append (.append (.append (.append (.append (.append (.append (.append ?_ ?_) ?_) ?_) ?_) ?_) ?_) ?_) ?_)
  · exact .of_checked kl (by simp) (by simp)
  · refine .jump (cr ++ [Instr.jumpIfFalse _] ++ [Instr.pushBool Double.one] ++ [Instr.jump _])
      ([Instr.pushBool Double.one] ++ [Instr.jump _] ++ [Instr.pushBool Double.zero])
      (by simp; exact ⟨rfl, rfl, rfl⟩) rfl (by simp; omega) (by simp [pops_eq, Instr.pops, dl]) ?_
    simp [pushes_eq, pops_eq, Instr.pushes, Instr.pops, dr]
  · exact .of_checked kr (by simp; omega) (by simp [dl])
  · refine .jump ([Instr.pushBool Double.one] ++ [Instr.jump _] ++ [Instr.pushBool Double.one] ++ [Instr.jump _])
      [Instr.pushBool Double.zero] (by simp; exact ⟨rfl, rfl⟩) rfl (by simp; omega) (by simp [pops_eq, Instr.pops, dl, dr]) ?_
    simp [pushes_eq, pops_eq, Instr.pushes, Instr.pops]
  · exact .instr (by simp [pops_eq, Instr.pops, dl, dr]) rfl rfl
  · refine .jump ([Instr.pushBool Double.one] ++ [Instr.jump _] ++ [Instr.pushBool Double.zero]) []
      (by simp; rfl) rfl (by simp; omega) (by simp [pops_eq, Instr.pops, dl, dr]) ?_
    simp [pushes_eq, pops_eq, Instr.pushes, Instr.pops]
  · exact .instr (by simp [pops_eq, Instr.pops, dl, dr]) rfl rfl
  · refine .jump [.pushBool Double.zero] [] (by simp) rfl (by simp; omega) (by simp [pops_eq, Instr.pops, dl, dr]) ?_
    simp [pushes_eq, pops_eq, Instr.pushes, Instr.pops]
  · exact .instr (by simp [pops_eq, Instr.pops, dl, dr]) rfl rfl

theorem adds_emitOr [Double D] (hl : Adds 1 l) (hr : Adds 1 r) : Adds 1 (emitOr l r) := by
  refine (appends_emitOr hl hr).mono ?_
  rintro b _ ⟨cl, cr, rfl, ⟨dl, kl⟩, ⟨dr, kr⟩⟩
  exact checked_orCode kl dl kr dr

theorem adds_lookback {offset : Nat} (hc : Adds 1 c) :
    Adds 1 (fun program => do
      let program ← emit (.lookbackPush offset) program
      emit .lookbackPop (← c program)) := by
  refine (appends_lookback hc).mono ?_
  rintro b _ ⟨cc, rfl, dc, kc⟩
  refine ⟨by simp [dc], checked_iff_piece.mpr (.append (.append ?_ ?_) ?_)⟩
  · exact .instr (by simp [pops_eq, Instr.pops]) rfl rfl
  · exact .of_checked kc (by simp) (by simp)
  · exact .instr (by simp [pops_eq, Instr.pops, dc]) rfl rfl

end

/-! ### Every node -/

section
variable [Double D] {reg : Registry D} {localNames : List String} {subst : List (SubstFrame D)}
  {identifier : String → Compile D} {inline : InlineBody D}

variable {instr : Instr D} {ast : Ast D} {name : String} {args : List (Ast D)}

theorem constantInstr_plain {v : Option (Value D)} (h : constantInstr v = some instr) :
    Plain 0 instr := by
  unfold constantInstr at h
  split at h <;> cases h <;> exact ⟨rfl, rfl, rfl, rfl⟩

theorem adds_folded {c : Compile D} (h : Adds 1 c) : Adds 1 (folded reg ast c) := by
  unfold folded
  split
  · rename_i hinstr
    exact adds_emit (constantInstr_plain hinstr)
  · exact h

omit [Double D] in
theorem intrinsicInstr_plain {argc : Nat}
    (h : intrinsicInstr name argc = some instr) : Plain argc instr := by
  unfold intrinsicInstr at h
  split at h <;> cases h <;> exact ⟨rfl, rfl, rfl, rfl⟩

omit [Double D] in
theorem nativeCallInstr_plain (entry : FuncEntry D) (ast : Ast D) (argc : Nat) :
    Plain argc (nativeCallInstr entry ast argc) := by
  unfold nativeCallInstr
  split <;> exact ⟨rfl, rfl, rfl, rfl⟩

omit [Double D] in
theorem definedDirectFieldCall_plain {entry : FuncEntry D}
    (h : definedDirectFieldCall entry args = some instr) : Plain 0 instr := by
  unfold definedDirectFieldCall at h
  simp only at h
  split at h
  case h_3 => cases h
  all_goals
    split at h
    · cases h
    · split at h
      · split at h
        · cases h
          exact ⟨rfl, rfl, rfl, rfl⟩
        · cases h
      · cases h

omit [Double D] in
theorem emitLeafSquare_plain
    (h : emitLeafSquare localNames subst ast = some instr) : Plain 0 instr := by
  fun_induction emitLeafSquare localNames subst ast with
  | case3 _ _ _ _ _ ih | case4 _ _ _ _ ih => exact ih h
  | case7 => cases h
  | _ => cases h; exact ⟨rfl, rfl, rfl, rfl⟩

theorem adds_compileCall {argNames : List (Option String)}
    {acts : List (Compile D)} (hlen : acts.length = args.length) (hacts : ∀ c ∈ acts, Adds 1 c)
    (hinline : ∀ f, inline = some f → ∀ body frames, Adds 1 (f body frames)) :
    Adds 1 (compileCall reg subst inline name args argNames acts) := by
  unfold compileCall
  simp only
  split
  · exact adds_emit ⟨rfl, rfl, rfl, rfl⟩
  split
  · exact adds_emitTernary (hacts _ (by simp)) (hacts _ (by simp)) (hacts _ (by simp))
  split
  · split
    · exact adds_emit ⟨rfl, rfl, rfl, rfl⟩
    · exact appends_error
  rename_i entry _
  split
  · rename_i hinstr
    exact adds_emitAfter hacts (hlen ▸ intrinsicInstr_plain hinstr)
  split
  · exact adds_emit ⟨rfl, rfl, rfl, rfl⟩
  split
  · exact adds_emitAfter hacts ⟨hlen.symm, rfl, rfl, rfl⟩
  split
  · exact adds_emit ⟨rfl, rfl, rfl, rfl⟩
  split
  · exact adds_emitAfter hacts (hlen ▸ nativeCallInstr_plain ..)
  split
  · split <;> exact adds_emitAfter hacts ⟨hlen.symm, rfl, rfl, rfl⟩
  split
  · rename_i hdirect
    exact adds_emit (definedDirectFieldCall_plain hdirect)
  split
  · exact adds_emitAfter hacts ⟨hlen.symm, rfl, rfl, rfl⟩
  split
  · split
    · split
      · exact hinline _ rfl _ _
      · exact adds_emitAfter hacts ⟨hlen.symm, rfl, rfl, rfl⟩
    · exact adds_emit ⟨rfl, rfl, rfl, rfl⟩
  · exact adds_emit ⟨rfl, rfl, rfl, rfl⟩

theorem adds_compileProducer {field : String} {argNames : List (Option String)}
    {acts : List (Compile D)} (hlen : acts.length = args.length) (hacts : ∀ c ∈ acts, Adds 1 c) :
    Adds 1 (compileProducer reg name args argNames field acts) := by
  intro p p' hp
  unfold compileProducer at hp
  simp only at hp
  split at hp
  · cases hp
  rename_i entry _
  split at hp
  · have hplain : Plain 0 (.callAst (.producerAccess name args argNames field)) := ⟨rfl, rfl, rfl, rfl⟩
    exact adds_emit hplain _ _ hp
  split at hp
  · cases hp
  obtain ⟨ordered, hbind, hp⟩ := bind_eq_ok.mp hp
  obtain ⟨hord, hmem⟩ := callBindArgs_mem hbind
  have hcount : (ordered.map (·.2)).length = args.length := by simp [hord, hlen]
  have hordered : ∀ c ∈ ordered.map (·.2), Adds 1 c := by
    intro c hc
    obtain ⟨x, hx, rfl⟩ := List.mem_map.mp hc
    exact hacts _ (List.of_mem_zip (hmem x hx)).2
  -- both calls are followed by the field access of their result
  have key : ∀ instr : Instr D, Plain args.length instr →
      (do emit (.getField field) (← emitAfter (ordered.map Prod.snd) instr p)) = .ok p' →
      ∃ code, p' = p ++ code ∧ depth code = 1 ∧ Checked p.length 0 code := by
    intro instr hplain hp
    obtain ⟨p₁, h₁, hp⟩ := bind_eq_ok.mp hp
    obtain ⟨code, rfl, dcode, kcode⟩ := adds_emitAfter hordered (hcount ▸ hplain) p p₁ h₁
    cases hp
    refine ⟨code ++ [Instr.getField field], by simp, by simp [dcode, next_eq, Instr.falls, Instr.pushes, Instr.pops], ?_⟩
    exact kcode.concat (by simp [pops_eq, Instr.pops, dcode]) rfl rfl
  split at hp
  · exact key (.callDefined entry _ args.length) ⟨rfl, rfl, rfl, rfl⟩ hp
  · split at hp
    · rename_i cacheKey values _
      have hplain : Plain 0 (.callProducerConstField entry cacheKey field values) := ⟨rfl, rfl, rfl, rfl⟩
      exact adds_emit hplain _ _ hp
    · exact key (.callProducer entry name args.length) ⟨rfl, rfl, rfl, rfl⟩ hp

omit [Double D] in
theorem adds_lookbackResolve (target : Ast D) (offset : Nat) : Adds 1 (emit (.lookbackResolve target offset)) :=
  adds_emit ⟨rfl, rfl, rfl, rfl⟩

mutual

theorem adds_compileNode (hid : ∀ name, Adds 1 (identifier name))
    (hinline : ∀ f, inline = some f → ∀ body frames, Adds 1 (f body frames)) :
    ∀ ast : Ast D, Adds 1 (compileNode reg localNames subst identifier inline ast)
  | .number _ | .int64 _ | .bool _ | .string _ | .record _ _ | .param _ | .fieldAccess _ _ | .chainAccess _ => by
    simp only [compileNode]
    exact adds_folded (adds_emit ⟨rfl, rfl, rfl, rfl⟩)
  | .array es => by
    simp only [compileNode]
    obtain ⟨hlen, hes⟩ := adds_compileList hid hinline es
    exact adds_folded (adds_emitAfter hes ⟨hlen.symm, rfl, rfl, rfl⟩)
  | .identifier name => by
    simp only [compileNode]
    exact adds_folded (hid name)
  | .fieldOf base field => by
    simp only [compileNode]
    refine adds_folded ?_
    split
    · exact adds_emit ⟨rfl, rfl, rfl, rfl⟩
    · exact adds_emitAfter (by simpa using adds_compileNode hid hinline base) ⟨rfl, rfl, rfl, rfl⟩
  | .producerAccess name args argNames field => by
    simp only [compileNode]
    obtain ⟨hlen, hargs⟩ := adds_compileList hid hinline args
    exact adds_folded (adds_compileProducer hlen hargs)
  | .index target i => by
    simp only [compileNode]
    have htarget := adds_compileNode hid hinline target
    refine adds_folded ?_
    split
    · refine adds_emitAfter ?_ ⟨rfl, rfl, rfl, rfl⟩
      simpa using ⟨htarget, adds_compileNode hid hinline i⟩
    · split
      · exact adds_compileLookback hid hinline target _ htarget _
      · exact adds_emit ⟨rfl, rfl, rfl, rfl⟩
  | .call name args argNames => by
    simp only [compileNode]
    obtain ⟨hlen, hargs⟩ := adds_compileList hid hinline args
    exact adds_folded (adds_compileCall hlen hargs hinline)
  | .binary op l r => by
    have hl := adds_compileNode hid hinline l
    have hr := adds_compileNode hid hinline r
    have hlr : ∀ c ∈ [compileNode reg localNames subst identifier inline l,
        compileNode reg localNames subst identifier inline r], Adds 1 c := by simpa using ⟨hl, hr⟩
    cases op with
    | and =>
      simp only [compileNode]
      refine adds_folded ?_
      split
      · exact adds_emit ⟨rfl, rfl, rfl, rfl⟩
      · exact hr
      · exact adds_emitAnd hl hr
    | or =>
      simp only [compileNode]
      refine adds_folded ?_
      split
      · exact adds_emit ⟨rfl, rfl, rfl, rfl⟩
      · exact hr
      · exact adds_emitOr hl hr
    | star =>
      simp only [compileNode]
      refine adds_folded ?_
      split
      · split
        · rename_i hleaf
          exact adds_emit (emitLeafSquare_plain hleaf)
        · exact adds_emitAfter (by simpa using hl) ⟨rfl, rfl, rfl, rfl⟩
      · exact adds_emitAfter hlr ⟨rfl, rfl, rfl, rfl⟩
    | _ =>
      simp only [compileNode]
      exact adds_folded (adds_emitAfter hlr ⟨rfl, rfl, rfl, rfl⟩)
  | .unary op a => by
    have ha := adds_compileNode hid hinline a
    cases op <;> simp only [compileNode] <;>
      exact adds_folded (adds_emitAfter (by simpa using ha) ⟨rfl, rfl, rfl, rfl⟩)
  | .ternary c t e => by
    simp only [compileNode]
    exact adds_folded (adds_emitTernary (adds_compileNode hid hinline c) (adds_compileNode hid hinline t)
      (adds_compileNode hid hinline e))

theorem adds_compileLookback (hid : ∀ name, Adds 1 (identifier name))
    (hinline : ∀ f, inline = some f → ∀ body frames, Adds 1 (f body frames)) :
    ∀ (target : Ast D) (act : Compile D), Adds 1 act → ∀ offset,
      Adds 1 (compileLookback reg localNames subst identifier inline target act offset)
  | .index target i, act, hact, offset => by
    simp only [compileLookback]
    split
    · exact adds_compileLookback hid hinline target _ (adds_compileNode hid hinline target) _
    · exact adds_lookbackResolve _ _
  | .number _, act, hact, offset | .int64 _, act, hact, offset | .bool _, act, hact, offset
  | .string _, act, hact, offset | .array _, act, hact, offset | .record _ _, act, hact, offset
  | .identifier _, act, hact, offset | .param _, act, hact, offset | .fieldAccess _ _, act, hact, offset
  | .fieldOf _ _, act, hact, offset | .chainAccess _, act, hact, offset | .producerAccess _ _ _ _, act, hact, offset
  | .binary _ _ _, act, hact, offset | .unary _ _, act, hact, offset | .call _ _ _, act, hact, offset
  | .ternary _ _ _, act, hact, offset => by
    simp only [compileLookback]
    split
    · exact adds_lookback hact
    · exact adds_lookbackResolve _ _

theorem adds_compileList (hid : ∀ name, Adds 1 (identifier name))
    (hinline : ∀ f, inline = some f → ∀ body frames, Adds 1 (f body frames)) :
    ∀ as : List (Ast D), (compileList reg localNames subst identifier inline as).length = as.length ∧
      ∀ c ∈ compileList reg localNames subst identifier inline as, Adds 1 c
  | [] => by simp [compileList]
  | a :: as => by
    obtain ⟨hlen, has⟩ := adds_compileList hid hinline as
    simp only [compileList]
    refine ⟨by simp [hlen], ?_⟩
    rintro c (_ | ⟨_, hc⟩)
    · exact adds_compileNode hid hinline a
    · exact has c hc

end

theorem adds_compileIdentifier (hinline : ∀ f, inline = some f → ∀ body frames, Adds 1 (f body frames)) :
    ∀ (subst : List (SubstFrame D)) (name : String),
      Adds 1 (compileIdentifier reg localNames inline subst name)
  | [], name => by
    unfold compileIdentifier
    split <;> exact adds_emit ⟨rfl, rfl, rfl, rfl⟩
  | frame :: parent, name => by
    unfold compileIdentifier
    split
    · exact adds_compileNode (adds_compileIdentifier hinline parent) hinline _
    · exact adds_compileIdentifier hinline parent name

theorem adds_inlineBody (k : Nat) : ∀ f, inlineBody reg localNames k = some f →
    ∀ body frames, Adds 1 (f body frames) := by
  induction k with
  | zero =>
    intro f hf
    cases hf
  | succ k ih =>
    intro f hf body frames
    cases hf
    exact adds_compileNode (adds_compileIdentifier ih frames) ih body

theorem compileWithLocals_code {program : Program D}
    (h : compileWithLocals ast reg localNames = .ok program) :
    ∃ code, program = code ++ [Instr.ret] ∧ depth code = 1 ∧ Checked 0 0 code := by
  obtain ⟨p, hnode, hret⟩ := bind_eq_ok.mp h
  have hinline := @adds_inlineBody D _ reg localNames inlineDepthLimit
  obtain ⟨code, hp, hdepth, hcode⟩ :=
    adds_compileNode (adds_compileIdentifier hinline []) hinline ast [] p hnode
  rw [List.nil_append] at hp
  subst hp
  cases hret
  exact ⟨p, rfl, hdepth, hcode⟩

end
end

/-- Jumps stay inside the program and go forward, all paths to an instruction bring the same depth, which covers its
    operands, and the only `RETURN` is the last instruction, which is reached with one value. -/
structure WellFormed (program : Program D) : Prop where
  jumps : ∀ i instr t, program[i]? = some instr → instr.target? = some t → i < t ∧ t < program.length
  inside : ∀ i d, Reaches program i d → i < program.length
  balanced : ∀ i d d', Reaches program i d → Reaches program i d' → d = d'
  nonneg : ∀ i d, Reaches program i d → 0 ≤ d
  operands : ∀ i d instr, Reaches program i d → program[i]? = some instr → (instr.pops : Int) ≤ d
  ends : program.getLast? = some .ret ∧ Reaches program (program.length - 1) 1
  returns : ∀ i, program[i]? = some .ret → i + 1 = program.length

section
variable {D : Type} {code : Program D}

theorem pops_le_depth {i : Nat} {instr : Instr D} (hdepth : depth code = 1) (h : Checked 0 0 code)
    (hi : (code ++ [Instr.ret])[i]? = some instr) : (instr.pops : Int) ≤ depth (code.take i) := by
  rcases Nat.lt_or_ge i code.length with hlt | hge
  · rw [List.getElem?_append_left hlt] at hi
    simpa [pops_eq] using (h i instr hi).1.1
  · have hlen := (List.getElem?_eq_some_iff.mp hi).1
    obtain rfl : i = code.length := by simp at hlen; omega
    simp only [List.getElem?_concat_length, Option.some.injEq] at hi
    rw [← hi, List.take_length, hdepth]
    exact Int.le_refl _

theorem wellFormed_of_checked (hdepth : depth code = 1) (h : Checked 0 0 code) :
    WellFormed (code ++ [Instr.ret]) where
  jumps i instr t hi ht := by
    rcases Nat.lt_or_ge i code.length with hlt | hge
    · rw [List.getElem?_append_left hlt] at hi
      obtain ⟨hfwd, hend, -⟩ := (h i instr hi).2 t ht
      exact ⟨by omega, by simp; omega⟩
    · have hlen := (List.getElem?_eq_some_iff.mp hi).1
      obtain rfl : i = code.length := by simp at hlen; omega
      simp only [List.getElem?_concat_length, Option.some.injEq] at hi
      rw [← hi] at ht
      cases ht
  inside i d hr := by
    have := (h.reaches rfl rfl hr).1
    simp
    omega
  balanced i d d' hr hr' := (h.reaches rfl rfl hr).2.trans (h.reaches rfl rfl hr').2.symm
  nonneg i d hr := by
    obtain ⟨hle, rfl⟩ := h.reaches rfl rfl hr
    obtain ⟨instr, hi⟩ : ∃ instr, (code ++ [Instr.ret])[i]? = some instr :=
      ⟨_, List.getElem?_eq_getElem (by simp; omega)⟩
    exact Int.le_trans (Int.natCast_nonneg _) (pops_le_depth hdepth h hi)
  operands i d instr hr hi := by
    obtain ⟨-, rfl⟩ := h.reaches rfl rfl hr
    exact pops_le_depth hdepth h hi
  ends := by
    have hend : Reaches (code ++ [Instr.ret]) code.length (depth code) := h.reaches_end rfl rfl
    rw [hdepth] at hend
    exact ⟨by simp, by simpa using hend⟩
  returns i hi := by
    rcases Nat.lt_or_ge i code.length with hlt | hge
    · rw [List.getElem?_append_left hlt] at hi
      rcases (h i .ret hi).1.2 with hf | ht
      · cases hf
      · cases ht
    · have hlen := (List.getElem?_eq_some_iff.mp hi).1
      simp at hlen ⊢
      omega

end

end Cxpr.Ir
