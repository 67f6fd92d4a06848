import Cxpr.Eval.RenamedCalls
import Cxpr.Model.LookbackBound

/-! What the buffers of a session show. During a tick the array of a buffer has the newest of the values that its update
    computed in the ticks before, and the lookback resolver of the session (`src/model/session.c`) finds the same values
    under the indexes that it takes. -/

namespace Cxpr.Model
open Ir (sizeMax lookbackLiteralOffset)
variable {D χ : Type}

/-- `cxpr_model_lookback_target_key`: a name prints as itself, and `print` prints the other accesses. -/
def lookbackTargetKey (print : Ast D → String) (target : Ast D) : Option String :=
  match target with
  | .identifier name => some name
  | .fieldAccess _ _ | .fieldOf _ _ | .chainAccess _ | .producerAccess _ _ _ _ => some (print target)
  | _ => none

/-- `cxpr_model_context_get_history_value`. -/
def contextHistoryValue (ctx : Context D) (key : String) : Option (Value D) :=
  ctx.getTyped key <|>
    match key.splitOn "." with
    | [root, field] => if root == "" || 256 ≤ root.utf8ByteSize then none else ctx.getField root field
    | _ => none

section
variable [Double D]

def offsetError : Error := ⟨.syntaxError, "Dynamic lookback index must be a non-negative integer"⟩

/-- `cxpr_model_lookback_resolver` with the histories and the buffers of the active session; `number` is
    `cxpr_eval_ast_number`. -/
def lookbackResolver (nan : D) (print : Ast D → String) (number : Ast D → Context D → Except Error D) (view : View D)
    (target index : Ast D) (ctx : Context D) : Except Error (Option (Value D)) := do
  let offset ←
    match lookbackLiteralOffset index with
    | some offset => .ok offset
    | none => do
      match resolverOffset index (← number index ctx) with
      | some offset => .ok offset
      | none => .error offsetError
  match lookbackTargetKey print target with
  | none => return none
  | some key =>
    match view.stateBuffers.find? (·.name == key) with
    | some entry => return some ((entry.ring.newest offset).getD (.number nan))
    | none =>
      if offset = 0 then return contextHistoryValue ctx key
      else
        match view.histories.find? (·.name == key) with
        -- a history holds the values of the ticks before, so that its newest one is a tick ago
        | some entry => return some ((entry.ring.newest (offset - 1)).getD (.number nan))
        | none => return some (.number nan)

/-! ### Indexes -/

/-- The number is an integer that a `size_t` holds. -/
structure IsIndex (d : D) (i : Nat) : Prop where
  nonneg : Double.le Double.zero d = true
  integral : Double.eq (Double.floor d) d = true
  size : Double.lt d (Double.ofNat sizeMax) = true
  toSize : Double.toSize d = i

end

/-- Doubles whose offsets are exact: one half is not enough to reach the next integer, and the tolerance of a literal
    offset is less than one. -/
class OffsetDouble (D : Type) extends OrderedDouble D where
  toSize_add_half : ∀ {d : D} {i : Nat}, IsIndex d i → i < 2 ^ 32 → toSize (add d half) = i
  sub_self : ∀ {d : D} {i : Nat}, IsIndex d i → i < 2 ^ 32 →
    Double.gt (fabs (sub d (ofNat i))) tolerance = false
  sub_far : ∀ {d : D} {i n : Nat}, IsIndex d i → n < 2 ^ 32 → 2 ^ 32 ≤ i →
    Double.gt (fabs (sub d (ofNat n))) tolerance = true

section
variable {d : Int} {i n : Nat}

theorem toSize_add_half_int (h : IsIndex d i) (_ : i < 2 ^ 32) : Double.toSize (Double.add d Double.half) = i := by
  have hzero : Double.add d Double.half = d := Int.add_zero d
  rw [hzero]
  exact h.toSize

theorem sub_self_int (h : IsIndex d i) (_ : i < 2 ^ 32) :
    Double.gt (Double.fabs (Double.sub d (Double.ofNat i))) Double.tolerance = false := by
  have hpos := h.nonneg
  obtain rfl := h.toSize
  simp only [Double.le, Double.zero, decide_eq_true_eq] at hpos
  simp only [Double.gt, Double.lt, Double.fabs, Double.sub, Double.ofNat, Double.toSize, Double.tolerance,
    decide_eq_false_iff_not]
  omega

theorem sub_far_int (h : IsIndex d i) (hn : n < 2 ^ 32) (hi : 2 ^ 32 ≤ i) :
    Double.gt (Double.fabs (Double.sub d (Double.ofNat n))) Double.tolerance = true := by
  have hpos := h.nonneg
  obtain rfl := h.toSize
  simp only [Double.le, Double.zero, decide_eq_true_eq] at hpos
  simp only [Double.toSize] at hi
  simp only [Double.gt, Double.lt, Double.fabs, Double.sub, Double.ofNat, Double.tolerance, decide_eq_true_eq]
  omega

end

/-- The offsets of integral doubles are exact. -/
instance : OffsetDouble Int where
  toSize_add_half := toSize_add_half_int
  sub_self := sub_self_int
  sub_far := sub_far_int

section
variable [OffsetDouble D] {d : D} {i : Nat} {index : Ast D}

theorem IsIndex.isfinite (h : IsIndex d i) : Double.isfinite d = true := OrderedDouble.isfinite_of_lt h.nonneg h.size

theorem IsIndex.not_neg (h : IsIndex d i) : Double.lt d Double.zero = false := OrderedDouble.not_lt_of_le h.nonneg

theorem constantIndex_of_isIndex (h : IsIndex d i) : Ir.constantIndex (some (.number d)) = some i := by
  have hover : Double.gt d (Double.ofNat sizeMax) = false := OrderedDouble.not_lt_of_le (OrderedDouble.le_of_lt h.size)
  simp [Ir.constantIndex, h.isfinite, h.not_neg, hover, Double.ne, h.integral, h.toSize]

theorem literalOffset_of_isIndex (h : IsIndex d i) (hi : i < 2 ^ 32) : lookbackLiteralOffset (.number d) = some i := by
  have hge : Double.ge d Double.zero = true := h.nonneg
  simp only [lookbackLiteralOffset, hge, if_true, OffsetDouble.toSize_add_half h hi, Nat.mod_eq_of_lt hi, h.isfinite,
    h.not_neg, OffsetDouble.sub_self h hi, Bool.not_true, Bool.or_self, Bool.false_eq_true, if_false]

theorem literalOffset_of_far (h : IsIndex d i) (hi : 2 ^ 32 ≤ i) : lookbackLiteralOffset (.number d) = none := by
  have hge : Double.ge d Double.zero = true := h.nonneg
  have hlt : Double.toSize (Double.add d Double.half) % 2 ^ 32 < 2 ^ 32 := Nat.mod_lt _ (by decide)
  simp only [lookbackLiteralOffset, hge, if_true, OffsetDouble.sub_far h hlt hi, Bool.or_true]

theorem resolverOffset_of_isIndex (h : IsIndex d i) (hindex : lookbackLiteralOffset index = none) :
    resolverOffset index d = if i ≤ 512 then some i else none := by
  have hcap : 512 ≤ exactMax := by decide
  have hover : Double.gt d (Double.ofNat 512) = true ↔ ¬ i ≤ 512 := by
    constructor
    · intro hgt hle
      have hle' : Double.le d (Double.ofNat 512) = true := by
        have hself := OrderedDouble.le_ofNat_toSize h.integral h.nonneg h.size
        rw [h.toSize] at hself
        exact OrderedDouble.le_trans hself (OrderedDouble.ofNat_le hle)
      exact absurd hgt (by rw [Double.gt, OrderedDouble.not_lt_of_le hle']; decide)
    · intro hgt
      by_contra hnot
      have hle : Double.le d (Double.ofNat 512) = true :=
        OrderedDouble.le_of_not_lt (OrderedDouble.not_nan_of_le h.nonneg).2
          (OrderedDouble.not_nan_of_le (OrderedDouble.ofNat_le (Nat.le_refl 512))).1 (by simpa [Double.gt] using hnot)
      have hsize := OrderedDouble.toSize_le h.nonneg hle (OrderedDouble.ofNat_lt_sizeMax hcap)
      rw [h.toSize, OrderedDouble.toSize_ofNat hcap] at hsize
      exact hgt hsize
  have hne : Double.ne (Double.floor d) d = false := by simp [Double.ne, h.integral]
  simp only [resolverOffset, hindex, h.isfinite, h.not_neg, hne, h.toSize, Bool.not_true, Bool.or_self, Bool.false_or]
  by_cases hi : i ≤ 512
  · have hnot : Double.gt d (Double.ofNat 512) = false := Bool.eq_false_iff.mpr fun hgt => hover.mp hgt hi
    simp [hnot, hi]
  · simp [hover.mpr hi, hi]

end

section
variable [OffsetDouble D]

def Taken (index : Ast D) (i : Nat) : Prop := i ≤ 512 ∨ (∃ raw, index = .number raw) ∧ i < 2 ^ 32

/-- What a view shows of a buffer that was given the values, the last one first: an array of its size, which reads at
    every index as the resolver does if that takes the index. -/
structure Displays (rt : Runtime D χ) (print : Ast D → String) (number : Ast D → Context D → Except Error D) (view : View D)
    (name : String) (samples : Nat) (values : List (Value D)) : Prop where
  array : ∃ a, (view.cell name).read = some (.array a) ∧ a.length = samples ∧
    ∀ i < samples, a[i]? = some (values[i]?.getD (.number rt.nan))
  indexed : ∀ (reg : Registry D) (deeper : Ast D → Eval.EvalM D (Value D)) (c c' : Context D) (index : Ast D) (d : D),
    ∀ i < samples, c.getTyped name = (view.cell name).read → IsIndex d i →
      Eval.evalNode reg deeper index c = .ok (.number d, c') → number index c = .ok d →
        Eval.evalNode reg deeper (.index (.identifier name) index) c = .ok (values[i]?.getD (.number rt.nan), c') ∧
        (Taken index i → lookbackResolver rt.nan print number view (.identifier name) index c =
          .ok (some (values[i]?.getD (.number rt.nan)))) ∧
        (¬ Taken index i → lookbackResolver rt.nan print number view (.identifier name) index c = .error offsetError)

variable {rt : Runtime D χ} {p : Program D} {print : Ast D → String} {number : Ast D → Context D → Except Error D}
  {view : View D} {c c' : Context D} {index : Ast D} {d : D} {i samples : Nat} {name : String} {values : List (Value D)}
  {reg : Registry D} {deeper : Ast D → Eval.EvalM D (Value D)}

theorem offset_of_isIndex (h : IsIndex d i) (hvalue : Eval.evalNode reg deeper index c = .ok (.number d, c')) :
    (Taken index i → lookbackLiteralOffset index = some i ∨ lookbackLiteralOffset index = none ∧ i ≤ 512) ∧
      (¬ Taken index i → lookbackLiteralOffset index = none ∧ ¬ i ≤ 512) := by
  by_cases hliteral : ∃ raw, index = .number raw
  · obtain ⟨raw, rfl⟩ := hliteral
    have hraw : raw = d := by
      rw [Eval.evalNode] at hvalue
      cases hvalue
      rfl
    subst hraw
    by_cases hi : i < 2 ^ 32
    · exact ⟨fun _ => .inl (literalOffset_of_isIndex h hi), fun hnot => absurd (.inr ⟨⟨raw, rfl⟩, hi⟩) hnot⟩
    · refine ⟨fun htaken => ?_, fun hnot => ⟨literalOffset_of_far h (Nat.not_lt.mp hi), fun hle => hnot (.inl hle)⟩⟩
      rcases htaken with hle | ⟨-, hlt⟩
      · exact .inr ⟨literalOffset_of_far h (Nat.not_lt.mp hi), hle⟩
      · exact absurd hlt hi
  · have hnone : lookbackLiteralOffset index = none := by
      cases index with
      | number raw => exact absurd ⟨raw, rfl⟩ hliteral
      | _ => rfl
    refine ⟨fun htaken => .inr ⟨hnone, ?_⟩, fun hnot => ⟨hnone, fun hle => hnot (.inl hle)⟩⟩
    exact htaken.resolve_right fun hlit => hliteral hlit.1

theorem lookbackResolver_buffer (rt : Runtime D χ) (print : Ast D → String) {entry : HistoryEntry D} (h : IsIndex d i)
    (hentry : view.stateBuffers.find? (·.name == name) = some entry)
    (hvalue : Eval.evalNode reg deeper index c = .ok (.number d, c')) (hnumber : number index c = .ok d) :
    (Taken index i → lookbackResolver rt.nan print number view (.identifier name) index c =
      .ok (some ((entry.ring.newest i).getD (.number rt.nan)))) ∧
    (¬ Taken index i → lookbackResolver rt.nan print number view (.identifier name) index c = .error offsetError) := by
  obtain ⟨htaken, hrefused⟩ := offset_of_isIndex h hvalue
  refine ⟨fun hi => ?_, fun hi => ?_⟩
  · unfold lookbackResolver
    rcases htaken hi with hliteral | ⟨hnone, hle⟩
    · rw [hliteral]
      simp only [lookbackTargetKey, hentry]
      rfl
    · rw [hnone, hnumber]
      simp only [bind, Except.bind, resolverOffset_of_isIndex h hnone, if_pos hle, lookbackTargetKey, hentry]
      rfl
  · obtain ⟨hnone, hover⟩ := hrefused hi
    unfold lookbackResolver
    rw [hnone, hnumber]
    simp only [bind, Except.bind, resolverOffset_of_isIndex h hnone, if_neg hover]

theorem displays_of_published {entry : HistoryEntry D} (hentry : view.stateBuffers.find? (·.name == name) = some entry)
    (hlength : entry.ring.values.length = samples) (hholds : entry.ring.Holds values)
    (hread : (view.cell name).read = some (.array (published rt entry.ring))) :
    Displays rt print number view name samples values := by
  have hnewest : ∀ i < samples, entry.ring.newest i = values[i]? := by
    intro i hi
    rw [hholds.newest, hlength, List.getElem?_take_of_lt hi]
  have hslot : ∀ i < samples, (published rt entry.ring)[i]? = some (values[i]?.getD (.number rt.nan)) := by
    intro i hi
    unfold published
    rw [List.getElem?_map, List.getElem?_range (hlength ▸ hi), Option.map_some, hnewest i hi]
  refine ⟨⟨_, hread, by simp [published, hlength], hslot⟩, fun reg deeper c c' index d i hi hshown h hvalue hnumber => ?_⟩
  obtain ⟨htaken, hrefused⟩ := lookbackResolver_buffer rt print h hentry hvalue hnumber
  rw [hnewest i hi] at htaken
  refine ⟨?_, htaken, hrefused⟩
  rw [Eval.evalNode, Eval.evalIndex_stored (hshown.trans hread)]
  unfold Eval.arrayIndex
  refine (Stateful.bind_apply_ok hvalue).trans ?_
  simp only [constantIndex_of_isIndex h, hslot i hi]
  rfl

end

section
variable [Double D] {rt : Runtime D χ} {p : Program D} {s t : Session D χ} {n : String} {values : List (Value D)}

/-- No input has the name of a state (`cxpr_model_validate_symbols`). -/
def Program.InputsFree (p : Program D) : Prop := ∀ st ∈ p.stateDefaults, st.name ∉ p.inputs

omit [Double D] in
theorem cell_foldl_setParamValue_struct (writes : List (String × Value D)) (f : Frame D) (n : String) :
    ∃ struct, (writes.foldl (fun f x => f.setParamValue x.1 x.2) f).cell n = { f.cell n with struct := struct } := by
  induction writes generalizing f with
  | nil => exact ⟨(f.cell n).struct, rfl⟩
  | cons x writes ih =>
    rw [List.foldl_cons]
    obtain ⟨struct, hrest⟩ := ih (f.setParamValue x.1 x.2)
    obtain ⟨struct', hfirst⟩ := Frame.cell_setParamValue f x.1 n x.2
    refine ⟨struct, ?_⟩
    rw [hrest, hfirst]

omit [Double D] in
theorem Holding.prepare {w : HostWrites D} (h : Holding rt p values s n) (hfree : ∀ x ∈ w.inputs, n ≠ x.1) :
    Holding rt p values (prepare w s) n := by
  refine h.withStruct rfl ?_
  have hcell := cell_foldl_setValue w.inputs s.ctx hfree
  obtain ⟨struct, hstruct⟩ := cell_foldl_setParamValue_struct w.params
    (w.inputs.foldl (fun f x => f.setValue x.1 x.2) s.ctx) n
  rw [hcell] at hstruct
  exact ⟨struct, hstruct⟩

theorem agreeAt_clampConstant {a : List (Value D)} (c : Constant D) (h : (s.ctx.cell n).read = some (.array a)) :
    AgreeAt n s (clampConstant s c) := by
  unfold clampConstant
  split
  · split
    · exact AgreeAt.refl n s
    · rename_i value hvalue
      refine agreeAt_write s (.number _) fun heq => ?_
      have hnone : s.get c.name = none := by
        rw [← heq]
        simp [Session.get, Session.getTyped, h]
      rw [hnone] at hvalue
      cases hvalue
  · exact AgreeAt.refl n s

theorem Holding.clampConstants (h : Holding rt p values s n) (cs : List (Constant D)) :
    Holding rt p values (cs.foldl clampConstant s) n := by
  induction cs generalizing s with
  | nil => exact h
  | cons c cs ih =>
    have hheld := h
    obtain ⟨entry, -, -, -, -, hread⟩ := hheld
    exact ih (h.congr (agreeAt_clampConstant c hread))

/-- The session after the ticks of `past`: the updates of the last one are staged, each buffer has those of the ticks
    before. -/
structure Stocked (rt : Runtime D χ) (p : Program D) (past : List (List (Event D))) (s : Session D χ) : Prop where
  pending : s.pending = staged (past.headD [])
  complete : ∀ evs ∈ past, evs.map (·.binding) = p.bindings
  holding : ∀ st ∈ p.stateDefaults, ∀ samples, st.initial = .inr samples →
    Holding rt p (past.tail.filterMap (computed · st.name)) s st.name

variable {past : List (List (Event D))} {evs : List (Event D)} {st : StateDefault D} {samples : Nat}

omit [Double D] in
theorem buffer_of_staged (h : evs.map (·.binding) = p.bindings) {x : Binding D × Value D} (hx : x ∈ staged evs)
    (hst : st ∈ p.stateDefaults) (hinit : st.initial = .inr samples) (hname : x.1.name = st.name) : x.1.buffer = true := by
  obtain ⟨hb, hk⟩ := mem_bindings_of_staged h hx
  obtain ⟨st', hst', hname', hbuffer⟩ := p.update_known x.1 hb hk
  obtain rfl := List.inj_on_of_nodup_map p.state_names hst' hst (hname'.trans hname)
  rw [← hbuffer, hinit]
  rfl

theorem Stocked.ready (h : Stocked rt p past s) (hst : st ∈ p.stateDefaults) (hinit : st.initial = .inr samples) :
    Holding rt p (past.filterMap (computed · st.name)) (Model.ready rt p s) st.name := by
  obtain ⟨ctx, hclamp, -, -⟩ := clampConstants_eq p.constants s
  have hclamped := (h.holding st hst samples hinit).clampConstants p.constants
  rw [hclamp] at hclamped
  have hready : Model.ready rt p s =
      { s.pending.foldl (commitValue rt) (clearCachedStructs { s with ctx := ctx }) with pending := [] } := by
    unfold Model.ready commitPending Model.clampConstants
    rw [hclamp]
    rfl
  have hcleared : Holding rt p (past.tail.filterMap (computed · st.name)) (clearCachedStructs { s with ctx := ctx })
      st.name := hclamped.congr ⟨rfl, rfl⟩
  generalize clearCachedStructs { s with ctx := ctx } = s₁ at hready hcleared
  rw [hready, h.pending]
  cases past with
  | nil => exact hcleared
  | cons evs past =>
    have hevs := h.complete evs List.mem_cons_self
    rw [List.headD_cons, List.filterMap_cons]
    by_cases hupdate : ∃ x ∈ staged evs, x.1.name = st.name
    · obtain ⟨⟨b, v⟩, hx, hname⟩ := hupdate
      obtain ⟨t, hbefore, hafter⟩ := agreeAt_commit_mem rt (staged_names hevs) hx s₁
      have hbuffer := buffer_of_staged hevs hx hst hinit hname
      have hfind : (staged evs).find? (·.1.name == b.name) = some (b, v) := find?_of_nodup (staged_names hevs) hx
      rw [← hname] at hcleared ⊢
      have hcomputed : computed evs b.name = some v := by rw [computed, hfind]; rfl
      rw [hcomputed]
      have hpush : commitValue rt t (b, v) = pushBuffer rt b.name v t := by
        unfold commitValue
        rw [hbuffer]
        rfl
      have hholding := (hcleared.congr hbefore).push v
      rw [← hpush] at hholding
      exact (hholding.congr hafter).congr ⟨rfl, rfl⟩
    · have hfree : ∀ x ∈ staged evs, st.name ≠ x.1.name := fun x hx heq => hupdate ⟨x, hx, heq.symm⟩
      have hcomputed : computed evs st.name = none := by
        rw [computed, List.find?_eq_none.mpr fun x hx => by simpa using (hfree x hx).symm]
        rfl
      rw [hcomputed]
      exact (hcleared.congr (agreeAt_commit (staged evs) s₁ hfree)).congr ⟨rfl, rfl⟩

theorem Stocked.tick (h : Stocked rt p past s) (htick : Model.tick rt p s = (none, t)) :
    Stocked rt p (tickEvents rt p s :: past) t := by
  unfold Model.tick at htick
  rcases heval : evalBindings rt p.bindings (Model.ready rt p s) with ⟨result, u⟩
  rw [heval] at htick
  cases result with
  | some err => cases htick
  | none =>
    have hfinish : finish rt p u = (none, t) := htick
    obtain ⟨hctx, hbuffers, hpending⟩ := finish_keeps rt p u
    rw [hfinish] at hctx hbuffers hpending
    obtain ⟨hmap, hstaged⟩ := evalBindings_staged heval
    refine ⟨hpending.trans hstaged, ?_, fun st hst samples hinit => ?_⟩
    · intro evs hevs
      rcases List.mem_cons.mp hevs with rfl | hevs
      · exact hmap
      · exact h.complete evs hevs
    · obtain ⟨⟨hcell, hkept⟩, -⟩ := evalBindings_keeps heval fun b hb hk => p.expr_free b hb hk st hst
      refine (h.ready hst hinit).congr ⟨?_, ?_⟩
      · rw [hctx, hcell]
      · rw [Session.buffer?, Session.buffer?, hbuffers, hkept]

end

section
variable [OffsetDouble D] {rt : Runtime D χ} {p : Program D} {s₀ s : Session D χ} {defaults : List (String × Value D)}
  {ws : List (HostWrites D)} {past : List (List (Event D))} {print : Ast D → String}
  {number : Ast D → Context D → Except Error D}

/-- In each tick every evaluation sees each buffer with what its update computed in the ticks before. -/
def Buffered (rt : Runtime D χ) (p : Program D) (print : Ast D → String) (number : Ast D → Context D → Except Error D) :
    List (List (Event D)) → Prop
  | [] => True
  | evs :: past =>
    (∀ e ∈ evs, ∀ st ∈ p.stateDefaults, ∀ samples, st.initial = .inr samples →
      Displays rt print number e.view st.name samples (past.filterMap (computed · st.name))) ∧
      Buffered rt p print number past

theorem Stocked.displays {t : Session D χ} (h : Stocked rt p past s)
    (heval : evalBindings rt p.bindings (Model.ready rt p s) = (none, t)) {st : StateDefault D} {samples : Nat}
    (hst : st ∈ p.stateDefaults) (hinit : st.initial = .inr samples) :
    ∀ e ∈ tickEvents rt p s, Displays rt print number e.view st.name samples (past.filterMap (computed · st.name)) := by
  intro e he
  obtain ⟨-, hviews⟩ := evalBindings_keeps heval fun b hb hk => p.expr_free b hb hk st hst
  obtain ⟨hcell, hbuffers⟩ := hviews e he
  obtain ⟨entry, hentry, hlength, hholds, -, hread⟩ := h.ready hst hinit
  refine displays_of_published ?_ (hlength.trans (samples_of_mem hst hinit)) hholds (hcell ▸ hread)
  rw [hbuffers]
  exact hentry

theorem Run.buffered (hfree : p.InputsFree)
    (hstart : ∀ st ∈ p.stateDefaults, ∀ samples, st.initial = .inr samples → Holding rt p [] s₀ st.name)
    (hpending : s₀.pending = [])
    (h : Run rt p (fun w _ => ∀ x ∈ w.inputs, x.1 ∈ p.inputs) s₀ ws past s) :
    Buffered rt p print number past ∧ Stocked rt p past s := by
  induction h with
  | start => exact ⟨trivial, hpending, nofun, hstart⟩
  | @tick ws past s t w _ hinputs htick ih =>
    obtain ⟨hbuffered, hstocked⟩ := ih
    have hprepared : Stocked rt p past (prepare w s) :=
      ⟨hstocked.pending, hstocked.complete, fun st hst samples hinit =>
        (hstocked.holding st hst samples hinit).prepare fun x hx heq => hfree st hst (heq ▸ hinputs x hx)⟩
    refine ⟨⟨fun e he st hst samples hinit => ?_, hbuffered⟩, hprepared.tick htick⟩
    rcases heval : evalBindings rt p.bindings (ready rt p (prepare w s)) with ⟨result, u⟩
    cases result with
    | some err =>
      unfold Model.tick at htick
      rw [heval] at htick
      cases htick
    | none => exact hprepared.displays heval hst hinit e he

/-- In every run of ticks a buffer shows the newest values of its update, and a push leaves every other buffer alone. -/
theorem buffers_show_updates {children : χ} (hfree : p.InputsFree)
    (hnew : sessionNew rt p children = .ok (s₀, defaults))
    (h : Run rt p (fun w _ => ∀ x ∈ w.inputs, x.1 ∈ p.inputs) s₀ ws past s) :
    Buffered rt p print number past ∧
      ∀ (t : Session D χ) (n m : String) (v : Value D), m ≠ n → AgreeAt m t (pushBuffer rt n v t) :=
  ⟨(h.buffered hfree (fun _ hst _ hinit => holding_sessionNew hnew hst hinit) (pending_sessionNew hnew)).1,
    fun t _ _ _ hne => agreeAt_pushBuffer t hne⟩

end

/-- `state b: buffer<number, samples = N>`, `b := x` and `y = b[k]`. -/
def buffering (samples : Nat) : Program Int where
  constants := []
  stateDefaults := [⟨"b", .unknown, .inr samples⟩]
  bindings := [⟨"b", .stateUpdate, .unknown, true, .identifier "x"⟩,
    ⟨"y", .expr, .unknown, false, .index (.identifier "b") (.identifier "k")⟩]
  inputs := ["x", "k"]
  outputs := ["y"]
  historySpecs := []
  binding_names := by decide
  state_names := List.nodup_singleton _
  input_free := by decide
  update_known := by simp
  expr_free := by simp

def bufferingRuntime : Runtime Int Unit := treeRuntime {} 1 ["b", "x", "k"] 0

/-- `cxpr_eval_ast_number` on the tree evaluator. -/
def treeNumber (ast : Ast Int) (c : Context Int) : Except Error Int :=
  Eval.evalAst {} 1 ast c >>= fun r => Eval.requireNumber r.1 "Expression did not evaluate to double"

theorem buffering_inputsFree (samples : Nat) : (buffering samples).InputsFree := List.forall_mem_singleton.mpr (by simp [buffering])

theorem buffering_show_updates :
    ∃ s₀ defaults past s, sessionNew bufferingRuntime (buffering 2) () = .ok (s₀, defaults) ∧
      Run bufferingRuntime (buffering 2) (fun w _ => ∀ x ∈ w.inputs, x.1 ∈ (buffering 2).inputs) s₀
        [⟨[("x", .number 4), ("k", .number 0)], []⟩, ⟨[("x", .number 3), ("k", .number 1)], []⟩] past s ∧
      (Buffered bufferingRuntime (buffering 2) (fun _ => "") treeNumber past ∧
        ∀ (t : Session Int Unit) (n m : String) (v : Value Int), m ≠ n → AgreeAt m t (pushBuffer bufferingRuntime n v t)) := by
  obtain ⟨s₀, defaults, hnew, past, s, hrun⟩ : ∃ s₀ defaults, sessionNew bufferingRuntime (buffering 2) () = .ok (s₀, defaults) ∧
      ∃ past s, Run bufferingRuntime (buffering 2) (fun w _ => ∀ x ∈ w.inputs, x.1 ∈ (buffering 2).inputs) s₀
        [⟨[("x", .number 4), ("k", .number 0)], []⟩, ⟨[("x", .number 3), ("k", .number 1)], []⟩] past s :=
    ⟨_, _, rfl, _, _, .tick _ (.tick _ .start (by decide) rfl) (by decide) rfl⟩
  exact ⟨s₀, defaults, past, s, hnew, hrun, buffers_show_updates (buffering_inputsFree 2) hnew hrun⟩

set_option maxRecDepth 100000 in
/-- The sample 513 of a buffer of 514 samples is in the array, and the resolver refuses its index. -/
theorem sample_beyond_resolver :
    ∃ s₀ defaults past s, sessionNew bufferingRuntime (buffering 514) () = .ok (s₀, defaults) ∧
      Run bufferingRuntime (buffering 514) (fun w _ => ∀ x ∈ w.inputs, x.1 ∈ (buffering 514).inputs) s₀
        [⟨[("x", .number 4), ("k", .number 513)], []⟩] past s ∧
      ∃ evs ∈ past, ∃ e ∈ evs, ∃ c : Context Int, c.getTyped "b" = (e.view.cell "b").read ∧
        treeNumber (.identifier "k") c = .ok 513 ∧
        (Eval.evalAst {} 1 (.index (.identifier "b") (.identifier "k")) c).map (·.1) = .ok (.number 0) ∧
        lookbackResolver 0 (fun _ => "") treeNumber e.view (.identifier "b") (.identifier "k") c = .error offsetError := by
  exact ⟨_, _, _, _, rfl, .tick _ .start (by decide) rfl, _, List.mem_cons_self, _, List.mem_cons_self,
    [(ready bufferingRuntime (buffering 514) (prepare ⟨[("x", .number 4), ("k", .number 513)], []⟩
      (blank bufferingRuntime (buffering 514) ()))).view.frame ["b", "x", "k"]], rfl, rfl, rfl, rfl⟩

end Cxpr.Model
