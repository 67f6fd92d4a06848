import Cxpr.Ir.CodegenScalar

/-! Array-capable functions of the C backend go in step with the typed executor: an array is a stretch of the arena,
    which only grows. -/

namespace Cxpr.Ir.Codegen
variable {S D : Type} [Double D]

inductive Represents (arena : List (CValue D)) : CValue D → Value D → Prop
  | scalar {c : CValue D} {v : Value D} (hkind : c.kind = 0) (h : IsDouble v c.d) : Represents arena c v
  | array {c : CValue D} {es : List (CValue D)} {vs : List (Value D)} (hkind : c.kind = 1) (hcount : c.count = vs.length)
      (hlen : es.length = vs.length) (hes : ∀ (i : Nat) e, es[i]? = some e → arena[c.start + i]? = some e)
      (h : ∀ (i : Nat) e v, es[i]? = some e → vs[i]? = some v → Represents arena e v) : Represents arena c (.array vs)

section
variable {arena : List (CValue D)} {c : CValue D} {v : Value D}

theorem Represents.grow (h : Represents arena c v) (more : List (CValue D)) : Represents (arena ++ more) c v := by
  induction h with
  | scalar hkind h => exact .scalar hkind h
  | array hkind hcount hlen hes _ ih =>
    refine .array hkind hcount hlen (fun i e he => ?_) ih
    have hget := hes i e he
    rw [List.getElem?_append_left (List.getElem?_eq_some_iff.mp hget).1]
    exact hget

theorem Represents.pushed (arena : List (CValue D)) {v : Value D} {d : D} (h : IsDouble v d) :
    Represents arena (.scalar d) v := .scalar rfl h

theorem Represents.isDouble (h : Represents arena c v) (hv : v.isScalar = true) : c.kind = 0 ∧ IsDouble v c.d := by
  cases h with
  | scalar hkind h => exact ⟨hkind, h⟩
  | array => cases hv

theorem represents_buildArray {stack : List (Value D)} {cs : List (CValue D)} {n : Nat}
    (h : List.Forall₂ (fun v c => Represents arena c v) stack cs) (hn : n ≤ stack.length) (d : D) :
    Represents (arena ++ (cs.take n).reverse) ⟨1, d, arena.length, n⟩ (.array (stack.take n).reverse) := by
  have htake := List.forall₂_reverse_iff.mpr (List.forall₂_take n h)
  have hcount : n = (stack.take n).reverse.length := by simp [Nat.min_eq_left hn]
  refine @Represents.array _ _ _ _ (cs.take n).reverse _ rfl hcount htake.length_eq.symm (fun i e he => ?_)
    (fun i e v he hv => ?_)
  · rw [List.getElem?_append_right (Nat.le_add_right _ _), Nat.add_sub_cancel_left]
    exact he
  · obtain ⟨hi, rfl⟩ := List.getElem?_eq_some_iff.mp hv
    obtain ⟨hj, rfl⟩ := List.getElem?_eq_some_iff.mp he
    exact (htake.get hi hj).grow _

end

section
variable {arena : List (CValue D)} {c c' : CValue D} {a b v : Value D}

theorem Represents.isScalar_or_array (h : Represents arena c v) : v.isScalar = true ∨ ∃ vs, v = .array vs := by
  cases h with
  | scalar _ h => exact .inl h.isScalar
  | array => exact .inr ⟨_, rfl⟩

theorem execArith_isScalar {op : Arith} (ha : Represents arena c a) (hb : Represents arena c' b)
    (h : execArith op a b = .ok v) : a.isScalar = true ∧ b.isScalar = true := by
  rcases ha.isScalar_or_array with hsa | ⟨vs, rfl⟩
  · rcases hb.isScalar_or_array with hsb | ⟨ws, rfl⟩
    · exact ⟨hsa, hsb⟩
    · cases a <;> cases hsa <;> cases op <;> cases h
  · rcases hb.isScalar_or_array with hsb | ⟨ws, rfl⟩
    · cases b <;> cases hsb <;> cases op <;> cases h
    · cases op <;> cases h

theorem execCmp_isScalar {op : Cmp} (ha : Represents arena c a) (hb : Represents arena c' b)
    (h : execCmp op a b = .ok v) : a.isScalar = true ∧ b.isScalar = true := by
  rcases ha.isScalar_or_array with hsa | ⟨vs, rfl⟩
  · rcases hb.isScalar_or_array with hsb | ⟨ws, rfl⟩
    · exact ⟨hsa, hsb⟩
    · cases a <;> cases hsa <;> cases op <;> cases h
  · rcases hb.isScalar_or_array with hsb | ⟨ws, rfl⟩
    · cases b <;> cases hsb <;> cases op <;> cases h
    · cases op <;> cases h

theorem execIndex_represents (ha : Represents arena c a) (hb : Represents arena c' b) (h : execIndex a b = .ok v) :
    invalidIndex c' c = false ∧ Double.toSize c'.d < c.count ∧
      ∃ e, arena[c.start + Double.toSize c'.d]? = some e ∧ Represents arena e v := by
  cases ha with
  | scalar hkind hdouble => cases a <;> first | cases h | cases hdouble
  | @array _ es vs hkind hcount hlen hes helements =>
    simp only [execIndex] at h
    cases hi : constantIndex (some b) with
    | none =>
      rw [hi] at h
      cases h
    | some i =>
      rw [hi] at h
      dsimp only at h
      cases hget : vs[i]? with
      | none =>
        rw [hget] at h
        cases h
      | some w =>
        rw [hget] at h
        cases h
        cases b with
        | number d =>
          obtain ⟨hkind', hdouble⟩ := hb.isDouble rfl
          cases hdouble
          simp only [constantIndex] at hi
          split at hi
          · cases hi
          · rename_i hvalid
            cases hi
            simp only [Bool.or_eq_true, not_or, Bool.not_eq_true] at hvalid
            obtain ⟨⟨⟨hfinite, hneg⟩, hfloor⟩, hmax⟩ := hvalid
            have htrunc : trunc c'.d = Double.floor c'.d := by simp [trunc, hneg]
            have hilt := (List.getElem?_eq_some_iff.mp hget).1
            refine ⟨?_, hcount ▸ hilt, ?_⟩
            · simp [invalidIndex, hkind', hkind, htrunc, hfinite, hneg, hfloor, hmax]
            · have hlt : Double.toSize c'.d < es.length := hlen ▸ hilt
              have he : es[Double.toSize c'.d]? = some es[Double.toSize c'.d] := List.getElem?_eq_getElem hlt
              exact ⟨_, hes _ _ he, helements _ _ _ he hget⟩
        | _ => cases hi

end

structure ArraySim (t : S) (m : Machine S D) (s : ArrayState D) : Prop where
  stack : List.Forall₂ (fun v c => Represents s.arena c v) m.stack s.stack
  room : m.stack.length + s.arena.length ≤ m.ip
  lookback : m.lookbackDepth = 0
  host : m.host = t

inductive ArrayFollows (t : S) (m : Machine S D) (checked : Bool) : Step S D → ArrayFlow D → Prop
  | next {m' : Machine S D} {s : ArrayState D} (hip : m'.ip = m.ip + 1) (h : ArraySim t m' s) :
      ArrayFollows t m checked (.next m') (.next s)
  | halt {v : Value D} {t' : S} {r : CResult D}
      (h : ∀ d, IsDouble v d → r = if checked then .checked d 0 else .plain d) :
      ArrayFollows t m checked (.halt v t') (.ret r)

section
variable {lib : CLib D} {f : CFrame D} {args : List ProgramArg} {host : Host S D} {t : S} {program : Program D}
  {m m' : Machine S D} {s : ArrayState D} {instr : Instr D} {stmt : ArrayStmt} {st : Step S D} {v : Value D} {d : D}
  {checked : Bool}

theorem ArraySim.replace {c : CValue D} {vs : List (Value D)} {cs : List (CValue D)} (h : ArraySim t m s)
    (hs : List.Forall₂ (fun v c => Represents s.arena c v) vs cs) (hlen : vs.length ≤ m.stack.length)
    (hc : Represents s.arena c v) :
    ArrayFollows t m checked (.next { m with ip := m.ip + 1, stack := v :: vs }) (.next { s with stack := c :: cs }) := by
  refine .next rfl ⟨.cons hc hs, ?_, h.lookback, h.host⟩
  have hroom := h.room
  simp only [List.length_cons]
  omega

theorem ArraySim.room_lt (h : ArraySim t m s) (hroom : m.ip < f.stackSize) : s.stack.length < f.stackSize := by
  rw [← h.stack.length_eq]
  exact lt_of_le_of_lt (Nat.le_of_add_right_le h.room) hroom

theorem ArraySim.push (h : ArraySim t m s) (hroom : m.ip < f.stackSize) (hv : IsDouble v d)
    (hstep : m.pushNext v = .ok st) : ∃ flow, s.push f (.scalar d) = some flow ∧ ArrayFollows t m checked st flow := by
  rw [pushNext_eq_ok hstep]
  exact ⟨_, if_pos (h.room_lt hroom), h.replace h.stack (Nat.le_refl _) (.pushed _ hv)⟩

theorem ArraySim.pop1 (checked : Bool) {exec : Value D → Except Fault (Value D)} {g : D → D} (h : ArraySim t m s)
    (hstep : (m.pop1 >>= fun x => exec x.1 >>= fun v => x.2.pushNext v) = .ok st)
    (hscalar : ∀ a v, exec a = .ok v → (∃ vs, a = .array vs) → False)
    (hexec : ∀ a v d, IsDouble a d → exec a = .ok v → IsDouble v (g d)) :
    ∃ a rest, s.stack = a :: rest ∧ ArrayFollows t m checked st (.next { s with stack := { a with d := g a.d } :: rest }) := by
  obtain ⟨⟨a, m₁⟩, hpop, hrest₁⟩ := bind_eq_ok.mp hstep
  obtain ⟨v, hv, hpush⟩ := bind_eq_ok.mp hrest₁
  obtain ⟨vs, hs, rfl⟩ := pop1_eq_ok hpop
  have hstack := h.stack
  simp only at hs hv hpush
  rw [hs] at hstack
  obtain ⟨c, rest, hc, hrest, hcons⟩ := List.forall₂_cons_left_iff.mp hstack
  rw [pushNext_eq_ok hpush]
  rcases hc.isScalar_or_array with hscal | harray
  · obtain ⟨hkind, hdouble⟩ := hc.isDouble hscal
    exact ⟨c, rest, hcons, h.replace hrest (by simp [hs]) (.scalar hkind (hexec a v c.d hdouble hv))⟩
  · exact (hscalar a v hv harray).elim

theorem ArraySim.pop2 (checked : Bool) {exec : Value D → Value D → Except Fault (Value D)} {g : D → D → D} (h : ArraySim t m s)
    (hstep : (m.pop2 >>= fun x => exec x.1 x.2.1 >>= fun v => x.2.2.pushNext v) = .ok st)
    (hscalar : ∀ a b c c' v, Represents s.arena c a → Represents s.arena c' b → exec a b = .ok v →
      a.isScalar = true ∧ b.isScalar = true)
    (hexec : ∀ a b v x y, IsDouble a x → IsDouble b y → exec a b = .ok v → IsDouble v (g x y)) :
    ∃ a b rest, s.stack = b :: a :: rest ∧
      ArrayFollows t m checked st (.next { s with stack := .scalar (g a.d b.d) :: rest }) := by
  obtain ⟨⟨a, b, m₁⟩, hpop, hrest₁⟩ := bind_eq_ok.mp hstep
  obtain ⟨v, hv, hpush⟩ := bind_eq_ok.mp hrest₁
  obtain ⟨vs, hs, rfl⟩ := pop2_eq_ok hpop
  have hstack := h.stack
  simp only at hs hv hpush
  rw [hs] at hstack
  obtain ⟨cb, _, hcb, hlower, hcons⟩ := List.forall₂_cons_left_iff.mp hstack
  obtain ⟨ca, rest, hca, hrest, rfl⟩ := List.forall₂_cons_left_iff.mp hlower
  obtain ⟨hsa, hsb⟩ := hscalar a b ca cb v hca hcb hv
  have hdouble := hexec a b v ca.d cb.d (hca.isDouble hsa).2 (hcb.isDouble hsb).2 hv
  rw [pushNext_eq_ok hpush]
  exact ⟨ca, cb, rest, hcons, h.replace hrest (by simp [hs]; omega) (.pushed _ hdouble)⟩

theorem load_arrayFollows {c : String} (hsim : ArraySim t m s) (hroom : m.ip < f.stackSize) (hc : f.param c = some d)
    (hv : IsDouble v d) (hstep : m.pushNext v = .ok st) :
    ∃ flow, ArrayStmt.exec lib f checked s (.pushArg c) = some flow ∧ ArrayFollows t m checked st flow := by
  simpa [ArrayStmt.exec, hc] using hsim.push hroom hv hstep

theorem buildArray_follows {n : Nat} (hsim : ArraySim t m s) (hroom : m.ip < f.stackSize)
    (hstep : step program host [] m (.buildArray n) = .ok st) :
    ∃ flow, ArrayStmt.exec lib f checked s (.buildArray n) = some flow ∧ ArrayFollows t m checked st flow := by
  obtain ⟨⟨values, m₁⟩, hpop, hpush⟩ := bind_eq_ok.mp hstep
  unfold Machine.popArgs at hpop
  split at hpop
  · cases hpop
  · rename_i hlen
    cases hpop
    rw [pushNext_eq_ok hpush]
    have hn : n ≤ m.stack.length := Nat.not_lt.mp hlen
    have hstack := hsim.stack
    have hlength := hstack.length_eq
    have hbound := hsim.room
    have harena : ¬ (s.stack.length < n || f.stackSize < s.arena.length + n) := by
      simp only [Bool.or_eq_true, decide_eq_true_eq, not_or, not_lt]
      omega
    have hdrop : (s.stack.drop n).length < f.stackSize := by
      simp only [List.length_drop]
      omega
    refine ⟨_, by simp only [ArrayStmt.exec, if_neg harena, ArrayState.push, if_pos hdrop]; rfl, .next rfl ?_⟩
    refine ⟨.cons (represents_buildArray hstack hn _) ?_, ?_, hsim.lookback, hsim.host⟩
    · exact (List.forall₂_drop n hstack).imp fun _ _ hr => hr.grow _
    · simp only [List.length_cons, List.length_drop, List.length_append, List.length_reverse, List.length_take]
      omega

theorem index_follows (hsim : ArraySim t m s) (hroom : m.ip < f.stackSize)
    (hstep : step program host [] m .index = .ok st) :
    ∃ flow, ArrayStmt.exec lib f checked s .index = some flow ∧ ArrayFollows t m checked st flow := by
  obtain ⟨⟨a, b, m₁⟩, hpop, hrest₁⟩ := bind_eq_ok.mp hstep
  obtain ⟨v, hv, hpush⟩ := bind_eq_ok.mp hrest₁
  obtain ⟨vs, hs, rfl⟩ := pop2_eq_ok hpop
  have hstack := hsim.stack
  simp only at hs hv hpush
  rw [hs] at hstack
  obtain ⟨cb, _, hcb, hlower, hcons⟩ := List.forall₂_cons_left_iff.mp hstack
  obtain ⟨ca, rest, hca, hrest, rfl⟩ := List.forall₂_cons_left_iff.mp hlower
  obtain ⟨hvalid, hlt, e, he, hrep⟩ := execIndex_represents hca hcb hv
  have hspace : rest.length < f.stackSize := by
    have hlt := hsim.room_lt hroom
    rw [hcons] at hlt
    simp only [List.length_cons] at hlt
    omega
  rw [pushNext_eq_ok hpush]
  refine ⟨.next { s with stack := e :: rest }, ?_, hsim.replace hrest (by simp [hs]; omega) hrep⟩
  simp [ArrayStmt.exec, hcons, hvalid, Nat.not_le.mpr hlt, he, ArrayState.push, hspace]

theorem step_arrayFollows (lib : CLib D) (checked : Bool) (hb : Bound f args host t) (hsim : ArraySim t m s) (hroom : m.ip < f.stackSize)
    (hconst : ∀ d, instr = .pushConst d → constantOf (Double.formatG 17 d) = some d)
    (hemit : emitArrayInstr args instr = .ok stmt) (hstep : step program host [] m instr = .ok st) :
    ∃ flow, stmt.exec lib f checked s = some flow ∧ ArrayFollows t m checked st flow := by
  obtain rfl := hsim.host
  cases instr with
  | pushConst d =>
    cases hemit
    simpa [ArrayStmt.exec, hconst d rfl] using hsim.push hroom (.number d) hstep
  | pushBool d =>
    cases hemit
    exact hsim.push hroom (.bool _) hstep
  | loadVar name payload =>
    obtain ⟨c, hc, hemit⟩ := bind_eq_ok.mp hemit
    cases hemit
    obtain ⟨v, d, hparam, hv, hload⟩ := hb.var m.ip name c hc
    simp only [step, loadValue, hsim.lookback, Nat.lt_irrefl, if_false, run_found hload] at hstep
    exact load_arrayFollows hsim hroom hparam hv hstep
  | loadParam name =>
    obtain ⟨c, hc, hemit⟩ := bind_eq_ok.mp hemit
    cases hemit
    obtain ⟨v, d, hparam, hv, hload, -⟩ := hb.param m.ip name c hc
    simp only [step, run_found hload] at hstep
    exact load_arrayFollows hsim hroom hparam hv hstep
  | buildArray n =>
    cases hemit
    exact buildArray_follows hsim hroom hstep
  | index =>
    cases hemit
    exact index_follows hsim hroom hstep
  | arith op =>
    obtain ⟨a, b, rest, hs, hfollows⟩ := hsim.pop2 checked hstep
      (fun _ _ _ _ _ ha hb h => execArith_isScalar ha hb h) fun _ _ _ _ _ ha hb h => isDouble_execArith ha hb h
    cases op <;> cases hemit <;> exact ⟨_, by simp [ArrayStmt.exec, hs, COp.apply]; rfl, hfollows⟩
  | cmp op =>
    cases hemit
    obtain ⟨a, b, rest, hs, hfollows⟩ := hsim.pop2 checked hstep
      (fun _ _ _ _ _ ha hb h => execCmp_isScalar ha hb h) fun _ _ _ _ _ ha hb h => isDouble_execCmp ha hb h
    exact ⟨_, by simp [ArrayStmt.exec, hs], hfollows⟩
  | not =>
    cases hemit
    rw [step_not] at hstep
    obtain ⟨a, rest, hs, hfollows⟩ := hsim.pop1 checked hstep
      (by rintro _ _ h ⟨vs, rfl⟩; cases h) fun _ _ _ ha h => isDouble_execNot ha h
    exact ⟨_, by simp [ArrayStmt.exec, hs], hfollows⟩
  | intrinsic op =>
    cases op with
    | neg =>
      cases hemit
      obtain ⟨a, rest, hs, hfollows⟩ := hsim.pop1 checked hstep
        (by rintro _ _ h ⟨vs, rfl⟩; cases h) fun _ _ _ ha h => isDouble_execIntrinsic ha h
      exact ⟨_, by simp [ArrayStmt.exec, hs, fastIntrinsic], hfollows⟩
    | _ => cases hemit
  | ret =>
    cases hemit
    obtain ⟨⟨a, m₁⟩, hpop, hrest₁⟩ := bind_eq_ok.mp hstep
    obtain ⟨vs, hs, hm₁⟩ := pop1_eq_ok hpop
    simp only at hs hm₁ hrest₁
    subst hm₁
    have hstack := hsim.stack
    rw [hs] at hstack
    obtain ⟨c, rest, hc, hrest, hcons⟩ := List.forall₂_cons_left_iff.mp hstack
    cases vs with
    | nil =>
      cases hrest₁
      refine ⟨_, by simp only [ArrayStmt.exec, hcons]; rfl, .halt fun d hd => ?_⟩
      obtain ⟨hkind, hdouble⟩ := hc.isDouble hd.isScalar
      obtain rfl := hdouble.unique hd
      rw [if_pos hkind]
    | cons w vs => cases hrest₁
  | _ => cases hemit

def ArrayEmitted (args : List ProgramArg) (program : Program D) (body : List ArrayStmt) : Prop :=
  ∀ (i : Nat) instr, program[i]? = some instr → ∃ stmt, body[i]? = some stmt ∧ emitArrayInstr args instr = .ok stmt

theorem run_arrayFollows {body : List ArrayStmt} (hb : Bound f args host t) (hconst : ConstantsRendered program)
    (hbody : ArrayEmitted args program body) (hsize : program.length ≤ f.stackSize) {fuel : Nat} {t' : S}
    (hsim : ArraySim t m s) (hrun : runTyped program host [] fuel m = some (.ok (v, t'))) (hd : IsDouble v d) :
    runArray lib f checked (body.drop m.ip) s = some (if checked then .checked d 0 else .plain d) := by
  induction fuel generalizing m s with
  | zero => cases hrun
  | succ fuel ih =>
    unfold runTyped at hrun
    cases hinstr : program[m.ip]? with
    | none =>
      rw [hinstr] at hrun
      cases hrun
    | some instr =>
      rw [hinstr] at hrun
      dsimp only at hrun
      obtain ⟨stmt, hstmt, hemit⟩ := hbody m.ip instr hinstr
      have hlt : m.ip < program.length := (List.getElem?_eq_some_iff.mp hinstr).1
      obtain ⟨hbound, rfl⟩ := List.getElem?_eq_some_iff.mp hstmt
      rw [List.drop_eq_getElem_cons hbound]
      cases hstep : step program host [] m instr with
      | error fault =>
        rw [hstep] at hrun
        cases hrun
      | ok st =>
        rw [hstep] at hrun
        obtain ⟨flow, hflow, hfollows⟩ := step_arrayFollows lib checked hb hsim
          (lt_of_lt_of_le hlt hsize) (fun d hd => hconst d (hd ▸ List.mem_of_getElem? hinstr)) hemit hstep
        simp only [runArray, hflow]
        cases hfollows with
        | next hip hsim' =>
          rw [← hip]
          exact ih hsim' hrun
        | halt hresult =>
          cases hrun
          rw [hresult d hd]

end
end Cxpr.Ir.Codegen
