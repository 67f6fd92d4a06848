import Cxpr.Model.Dependencies
import Cxpr.Model.Staged

/-! Ticks that evaluate the marked bindings alone. If the marks cover what a selection reads, its outputs come out as they do
    when all bindings are evaluated, in every run whose ticks succeed. -/

namespace Cxpr.Model
variable {D χ : Type}

def keepMarked : List (Binding D) → List Bool → List (Binding D)
  | b :: bs, r :: rs => if r then b :: keepMarked bs rs else keepMarked bs rs
  | _, _ => []

theorem keepMarked_sublist (bs : List (Binding D)) (rs : List Bool) : (keepMarked bs rs).Sublist bs := by
  induction bs generalizing rs with
  | nil => exact List.nil_sublist _
  | cons b bs ih =>
    cases rs with
    | nil => exact List.nil_sublist _
    | cons r rs =>
      unfold keepMarked
      split
      · exact (ih rs).cons_cons b
      · exact (ih rs).cons b

def Program.slice (p : Program D) (required : List Bool) : Program D where
  constants := p.constants
  stateDefaults := p.stateDefaults
  bindings := keepMarked p.bindings required
  inputs := p.inputs
  outputs := p.outputs
  historySpecs := p.historySpecs
  binding_names := p.binding_names.sublist ((keepMarked_sublist _ _).map _)
  state_names := p.state_names
  input_free := fun b hb => p.input_free b ((keepMarked_sublist _ _).subset hb)
  update_known := fun b hb => p.update_known b ((keepMarked_sublist _ _).subset hb)
  expr_free := fun b hb => p.expr_free b ((keepMarked_sublist _ _).subset hb)

def Program.kept (p : Program D) (required : List Bool) (n : String) : Bool :=
  (p.bindings.zip required).all fun x => x.2 || x.1.name != n

section
variable [Double D]

def readySelected (rt : Runtime D χ) (p : Program D) (sel : Selection) (s : Session D χ) : Session D χ :=
  let s := clearCachedStructs (clampConstants p s)
  if sel.stateCommits then commitPending rt s else { s with pending := [] }

def tickSelected (rt : Runtime D χ) (p : Program D) (sel : Selection) (s : Session D χ) : Option Error × Session D χ :=
  proceed (evalBindings rt p.bindings (readySelected rt p sel s)) fun s =>
    if sel.historyCaptures then finish rt p s else (none, refreshOutputs p s)

/-- The sessions that ticks lead to which all succeed, each after writes of the host. -/
inductive Program.Ran (rt : Runtime D χ) (p : Program D) (sel : Selection) (s₀ : Session D χ) :
    List (HostWrites D) → Session D χ → Prop
  | start : p.Ran rt sel s₀ [] s₀
  | tick {writes : List (HostWrites D)} {s t : Session D χ} (w : HostWrites D) (h : p.Ran rt sel s₀ writes s)
    (htick : tickSelected rt p sel (prepare w s) = (none, t)) : p.Ran rt sel s₀ (w :: writes) t

/-- In a run of the program the slice runs as well, and shows the same selected outputs. -/
def Program.SameOutputs (rt : Runtime D χ) (p : Program D) (sel : Selection) (required : List Bool) (children : χ) : Prop :=
  ∀ s₀ defaults writes s, sessionNew rt p children = .ok (s₀, defaults) → p.Ran rt sel s₀ writes s →
    ∃ t, (p.slice required).Ran rt sel s₀ writes t ∧ ∀ i, sel.Selects i → t.outputs[i]? = s.outputs[i]?

end

/-! ### Evaluators that read -/

structure Frame.AlikeOn (names : String → Prop) (f g : Frame D) : Prop where
  cell : ∀ n, names n → g.cell n = f.cell n
  params : g.paramStores = f.paramStores

structure View.AlikeOn (names : String → Prop) (v w : View D) : Prop where
  cell : ∀ n, names n → w.cell n = v.cell n
  params : w.params = v.params
  histories : w.histories = v.histories
  stateBuffers : w.stateBuffers = v.stateBuffers

/-- The evaluation of an expression reads the context under some names, and leaves nothing behind. -/
structure Runtime.ReadsOnly (rt : Runtime D χ) (names : String → Prop) (ast : Ast D) : Prop where
  value : ∀ v w eff, View.AlikeOn names v w → rt.evalAst ast w eff = rt.evalAst ast v eff
  number : ∀ v w eff, View.AlikeOn names v w → rt.evalAstNumber ast w eff = rt.evalAstNumber ast v eff
  effects : ∀ v eff, (rt.evalAst ast v eff).2 = eff
  numberEffects : ∀ v eff, (rt.evalAstNumber ast v eff).2 = eff

/-- Every expression that a tick evaluates reads only the names that it can look up. -/
structure Runtime.Reads (rt : Runtime D χ) (reg : Registry D) (p : Program D) : Prop where
  binding : ∀ b ∈ p.bindings, rt.ReadsOnly (Looks reg [] b.ast) b.ast
  target : ∀ spec ∈ p.historySpecs, ∀ ast, spec.target = some ast → rt.ReadsOnly (Looks reg [] ast) ast

section
variable {names : String → Prop} {rt : Runtime D χ} {f g : Frame D} {v w : View D} {ast : Ast D}

theorem Frame.AlikeOn.setValue (h : Frame.AlikeOn names f g) (n : String) (v : Value D) :
    Frame.AlikeOn names (f.setValue n v) (g.setValue n v) where
  cell m hm := by rw [Frame.cell_setValue, Frame.cell_setValue, h.cell m hm]
  params := by rw [Frame.paramStores_setValue, Frame.paramStores_setValue, h.params]

theorem Frame.AlikeOn.setParamValue (h : Frame.AlikeOn names f g) (n : String) (v : Value D) :
    Frame.AlikeOn names (f.setParamValue n v) (g.setParamValue n v) where
  cell m hm := Frame.cell_setParamValue_congr n v (h.cell m hm)
  params := Frame.paramStores_setParamValue_congr n v h.params

theorem Frame.AlikeOn.skip (h : Frame.AlikeOn names f g) {n : String} (hn : ¬ names n) (v : Value D) :
    Frame.AlikeOn names (f.setValue n v) g where
  cell m hm := by
    have hne : m ≠ n := fun heq => hn (heq ▸ hm)
    rw [Frame.cell_setValue_of_ne f v hne, h.cell m hm]
  params := by rw [Frame.paramStores_setValue, h.params]

theorem Runtime.ReadsOnly.eval (h : rt.ReadsOnly names ast) (hview : View.AlikeOn names v w) (kind : ResultKind)
    (eff : Effects D χ) : rt.eval kind ast w eff = rt.eval kind ast v eff := by
  cases kind with
  | number => simp only [Runtime.eval, h.number v w eff hview]
  | bool => simp only [Runtime.eval, Runtime.evalAstBoolResult, h.value v w eff hview]
  | int64 | unknown => simp only [Runtime.eval, h.value v w eff hview]

theorem Runtime.ReadsOnly.eval_effects (h : rt.ReadsOnly names ast) (kind : ResultKind) (v : View D) (eff : Effects D χ) :
    (rt.eval kind ast v eff).2 = eff := by
  have hvalue := h.effects v eff
  cases kind with
  | number => exact h.numberEffects v eff
  | bool =>
    unfold Runtime.eval Runtime.evalAstBoolResult
    rcases heval : rt.evalAst ast v eff with ⟨result, eff'⟩
    rw [heval] at hvalue
    obtain rfl : eff' = eff := hvalue
    rcases result with _ | value
    · rfl
    · cases value <;> rfl
  | int64 | unknown => exact hvalue

end

structure Sliced (kept : String → Bool) (sel : Selection) (s t : Session D χ) : Prop where
  ctx : Frame.AlikeOn (kept · = true) s.ctx t.ctx
  effects : t.effects = s.effects
  outputs : ∀ i, sel.Selects i → t.outputs[i]? = s.outputs[i]?
  histories : t.histories = s.histories
  stateBuffers : t.stateBuffers = s.stateBuffers
  pending : t.pending = s.pending.filter fun x => kept x.1.name
  updates : sel.stateCommits = true → ∀ x ∈ s.pending, kept x.1.name = true

section
variable {kept : String → Bool} {sel : Selection} {s t : Session D χ} {rt : Runtime D χ} {n : String}

theorem Sliced.refl (hpending : s.pending = []) : Sliced kept sel s s where
  ctx := ⟨fun _ _ => rfl, rfl⟩
  effects := rfl
  outputs := fun _ _ => rfl
  histories := rfl
  stateBuffers := rfl
  pending := by rw [hpending]; rfl
  updates := by simp [hpending]

theorem Sliced.view (h : Sliced kept sel s t) {names : String → Prop} (hnames : ∀ n, names n → kept n = true) :
    View.AlikeOn names s.view t.view where
  cell n hn := h.ctx.cell n (hnames n hn)
  params := h.ctx.params
  histories := h.histories
  stateBuffers := h.stateBuffers

theorem Sliced.getTyped (h : Sliced kept sel s t) (hn : kept n = true) : t.getTyped n = s.getTyped n := by
  unfold Session.getTyped
  rw [h.ctx.cell n hn, h.effects]

theorem Sliced.setValue (h : Sliced kept sel s t) (n : String) (v : Value D) :
    Sliced kept sel { s with ctx := s.ctx.setValue n v } { t with ctx := t.ctx.setValue n v } :=
  { h with ctx := h.ctx.setValue n v }

theorem Sliced.prepare (h : Sliced kept sel s t) (w : HostWrites D) : Sliced kept sel (prepare w s) (prepare w t) := by
  have hinputs : ∀ (writes : List (String × Value D)) (f g : Frame D), Frame.AlikeOn (kept · = true) f g →
      Frame.AlikeOn (kept · = true) (writes.foldl (fun f x => f.setValue x.1 x.2) f)
        (writes.foldl (fun f x => f.setValue x.1 x.2) g) := by
    intro writes
    induction writes with
    | nil => exact fun f g hfg => hfg
    | cons x writes ih => exact fun f g hfg => ih _ _ (hfg.setValue x.1 x.2)
  have hparams : ∀ (writes : List (String × Value D)) (f g : Frame D), Frame.AlikeOn (kept · = true) f g →
      Frame.AlikeOn (kept · = true) (writes.foldl (fun f x => f.setParamValue x.1 x.2) f)
        (writes.foldl (fun f x => f.setParamValue x.1 x.2) g) := by
    intro writes
    induction writes with
    | nil => exact fun f g hfg => hfg
    | cons x writes ih => exact fun f g hfg => ih _ _ (hfg.setParamValue x.1 x.2)
  exact { h with ctx := hparams w.params _ _ (hinputs w.inputs _ _ h.ctx) }

theorem Sliced.assign (h : Sliced kept sel s t) {b : Binding D} (hb : kept b.name = true) (v : Value D) :
    Sliced kept sel (assign b v s) (assign b v t) := by
  unfold Model.assign
  cases b.kind with
  | expr => exact h.setValue b.name v
  | stateUpdate =>
    refine { h with pending := ?_, updates := fun hcommits x hx => ?_ }
    · show t.pending ++ [(b, v)] = (s.pending ++ [(b, v)]).filter _
      simp [List.filter_append, h.pending, hb]
    · rcases List.mem_append.mp hx with hx | hx
      · exact h.updates hcommits x hx
      · obtain rfl := List.mem_singleton.mp hx
        exact hb

theorem Sliced.skip (h : Sliced kept sel s t) {b : Binding D} (hb : kept b.name = false)
    (hupdate : sel.stateCommits = true → b.kind ≠ .stateUpdate) (v : Value D) : Sliced kept sel (Model.assign b v s) t := by
  unfold Model.assign
  cases hkind : b.kind with
  | expr => exact { h with ctx := h.ctx.skip (by simp [hb]) v }
  | stateUpdate =>
    refine { h with pending := ?_, updates := fun hcommits => absurd hkind (hupdate hcommits) }
    show t.pending = (s.pending ++ [(b, v)]).filter _
    simp [List.filter_append, h.pending, hb]

/-- What a slice does with the bindings of a list: it keeps the marked ones, and what they look up, and drops the others. -/
structure Fits (kept : String → Bool) (reg : Registry D) (sel : Selection) (b : Binding D) (r : Bool) : Prop where
  name : kept b.name = r
  looks : r = true → ∀ n, Looks reg [] b.ast n → kept n = true
  update : sel.stateCommits = true → b.kind = .stateUpdate → r = true

theorem Sliced.evalBindings {reg : Registry D} {bs : List (Binding D)} {rs : List Bool} {s' : Session D χ}
    (h : Sliced kept sel s t) (hlen : bs.length = rs.length) (hfits : ∀ x ∈ bs.zip rs, Fits kept reg sel x.1 x.2)
    (hreads : ∀ b ∈ bs, rt.ReadsOnly (Looks reg [] b.ast) b.ast) (heval : Model.evalBindings rt bs s = (none, s')) :
    ∃ t', Model.evalBindings rt (keepMarked bs rs) t = (none, t') ∧ Sliced kept sel s' t' := by
  induction bs generalizing rs s t with
  | nil =>
    obtain rfl : s = s' := (Prod.mk.inj heval).2
    exact ⟨t, rfl, h⟩
  | cons b bs ih =>
    obtain ⟨r, rs, rfl⟩ := List.exists_cons_of_length_eq_add_one hlen.symm
    have hb := hfits (b, r) List.mem_cons_self
    have hread := hreads b List.mem_cons_self
    have hrest : ∀ x ∈ bs.zip rs, Fits kept reg sel x.1 x.2 := fun x hx => hfits x (List.mem_cons_of_mem _ hx)
    have hreads' : ∀ b ∈ bs, rt.ReadsOnly (Looks reg [] b.ast) b.ast := fun b' hb' => hreads b' (List.mem_cons_of_mem b hb')
    have heff := hread.eval_effects b.resultKind s.view s.effects
    unfold Model.evalBindings at heval
    rcases hvalue : rt.eval b.resultKind b.ast s.view s.effects with ⟨_ | v, eff⟩
    · rw [hvalue] at heval
      cases heval
    · rw [hvalue] at heval heff
      obtain rfl : eff = s.effects := heff
      cases r with
      | false =>
        exact ih (h.skip hb.name (fun hcommits hkind => Bool.noConfusion (hb.update hcommits hkind)) v) (Nat.succ.inj hlen) hrest
          hreads' heval
      | true =>
        obtain ⟨t', heval', ht'⟩ := ih (h.assign hb.name v) (Nat.succ.inj hlen) hrest hreads' heval
        refine ⟨t', ?_, ht'⟩
        have hview := h.view (hb.looks rfl)
        show Model.evalBindings rt (b :: keepMarked bs rs) t = _
        unfold Model.evalBindings
        rw [hread.eval hview, h.effects, hvalue]
        simpa [← h.effects] using heval'

/-! ### The rest of a tick -/

theorem Sliced.commitValue (h : Sliced kept sel s t) (x : Binding D × Value D) :
    Sliced kept sel (commitValue rt s x) (commitValue rt t x) := by
  rw [commitValue_eq, commitValue_eq, h.stateBuffers]
  exact { h with ctx := h.ctx.setValue _ _, stateBuffers := rfl }

theorem Sliced.commitPending (h : Sliced kept sel s t) (hcommits : sel.stateCommits = true) :
    Sliced kept sel (commitPending rt s) (commitPending rt t) := by
  have hpending : t.pending = s.pending := h.pending.trans (List.filter_eq_self.mpr (h.updates hcommits))
  have hfold : ∀ (l : List (Binding D × Value D)) (s t : Session D χ), Sliced kept sel s t →
      Sliced kept sel (l.foldl (Model.commitValue rt) s) (l.foldl (Model.commitValue rt) t) := by
    intro l
    induction l with
    | nil => exact fun s t h => h
    | cons x l ih => exact fun s t h => ih _ _ (h.commitValue x)
  have hcommitted := hfold s.pending s t h
  unfold Model.commitPending
  rw [hpending]
  exact { hcommitted with pending := rfl, updates := by simp }

theorem Sliced.clearCachedStructs (h : Sliced kept sel s t) :
    Sliced kept sel (clearCachedStructs s) (clearCachedStructs t) := by
  unfold Model.clearCachedStructs
  rw [h.effects]
  exact { h with effects := rfl }

theorem Sliced.drop (h : Sliced kept sel s t) : Sliced kept sel { s with pending := [] } { t with pending := [] } :=
  { h with pending := rfl, updates := by simp }

theorem Sliced.getField (h : Sliced kept sel s t) (hn : kept n = true) (field : String) :
    t.getField n field = s.getField n field := by
  unfold Session.getField
  rw [h.ctx.cell n hn, h.getTyped hn]

theorem Sliced.historyValue (h : Sliced kept sel s t) {key : String} (hkey : kept key = true)
    (hobject : ∀ object field, key.splitOn "." = [object, field] → kept object = true) :
    t.historyValue key = s.historyValue key := by
  unfold Session.historyValue
  rw [h.getTyped hkey]
  split
  · rename_i object field hsplit
    rw [h.getField (hobject object field hsplit)]
  · rfl

theorem Sliced.stagedScalar (h : Sliced kept sel s t) (hn : kept n = true) :
    stagedScalar n t.pending = stagedScalar n s.pending := by
  unfold Model.stagedScalar
  rw [h.pending, List.find?_filter]
  congr 2
  funext x
  rw [Bool.decide_and, Bool.decide_eq_true, Bool.decide_eq_true]
  by_cases hx : x.1.name = n
  · rw [hx, hn, Bool.true_and]
  · simp [hx]

variable [Double D]

theorem Sliced.get (h : Sliced kept sel s t) (hn : kept n = true) : t.get n = s.get n := by
  unfold Session.get
  rw [h.getTyped hn]

theorem Sliced.clampConstant (h : Sliced kept sel s t) (c : Constant D) :
    Sliced kept sel (Model.clampConstant s c) (Model.clampConstant t c) := by
  have hwrite : ∀ (s t : Session D χ) (v w : D), Sliced kept sel s t → kept c.name = false →
      Sliced kept sel { s with ctx := s.ctx.set c.name v } t ∧ Sliced kept sel s { t with ctx := t.ctx.set c.name w } := by
    intro s t v w h hc
    have hskip : ¬ kept c.name = true := by simp [hc]
    refine ⟨{ h with ctx := h.ctx.skip hskip (.number v) }, { h with ctx := ⟨fun m hm => ?_, ?_⟩ }⟩
    · have hne : m ≠ c.name := fun heq => hskip (heq ▸ hm)
      exact (Frame.cell_setValue_of_ne t.ctx (.number w) hne).trans (h.ctx.cell m hm)
    · exact (Frame.paramStores_setValue t.ctx c.name (.number w)).trans h.ctx.params
  unfold Model.clampConstant
  split
  · cases hc : kept c.name with
    | true =>
      rw [h.get hc]
      split
      · exact h
      · exact h.setValue c.name (.number _)
    | false =>
      cases s.get c.name with
      | none =>
        cases t.get c.name with
        | none => exact h
        | some w => exact (hwrite s t w _ h hc).2
      | some v =>
        cases t.get c.name with
        | none => exact (hwrite s t _ v h hc).1
        | some w => exact (hwrite _ t v _ (hwrite s t _ w h hc).1 hc).2
  · exact h

theorem Sliced.clampConstants (h : Sliced kept sel s t) (p : Program D) (required : List Bool) :
    Sliced kept sel (clampConstants p s) (clampConstants (p.slice required) t) := by
  show Sliced kept sel (p.constants.foldl Model.clampConstant s) (p.constants.foldl Model.clampConstant t)
  induction p.constants generalizing s t with
  | nil => exact h
  | cons c cs ih => exact ih (h.clampConstant c)

theorem Sliced.refreshOutputs (h : Sliced kept sel s t) {p : Program D} (required : List Bool)
    (hkept : ∀ i n, sel.Selects i → p.outputs[i]? = some n → kept n = true) :
    Sliced kept sel (refreshOutputs p s) (refreshOutputs (p.slice required) t) := by
  refine { h with outputs := fun i hi => ?_ }
  show (List.zipWith (refreshOutput t) p.outputs t.outputs)[i]? = (List.zipWith (refreshOutput s) p.outputs s.outputs)[i]?
  rw [List.getElem?_zipWith, List.getElem?_zipWith, h.outputs i hi]
  cases hname : p.outputs[i]? with
  | none => rfl
  | some n =>
    have hn := hkept i n hi hname
    have hrefresh : refreshOutput t n = refreshOutput s n := by
      funext o
      unfold refreshOutput
      rw [h.stagedScalar hn, h.getTyped hn, h.get hn]
    cases s.outputs[i]? with
    | none => rfl
    | some o => exact congrArg (fun f => some (f o)) hrefresh

omit [Double D] in
theorem Sliced.captureHistory {reg : Registry D} {specs : List (HistorySpec D)} (h : Sliced kept sel s t)
    (hkept : ∀ spec ∈ specs, ∀ n, spec.Captures reg n → kept n = true)
    (hreads : ∀ spec ∈ specs, ∀ ast, spec.target = some ast → rt.ReadsOnly (Looks reg [] ast) ast) :
    (captureHistory rt specs t).1 = (captureHistory rt specs s).1 ∧
      Sliced kept sel (captureHistory rt specs s).2 (captureHistory rt specs t).2 := by
  induction specs generalizing s t with
  | nil => exact ⟨rfl, h⟩
  | cons spec specs ih =>
    have hkept' : ∀ spec ∈ specs, ∀ n, spec.Captures reg n → kept n = true := fun spec' hspec' =>
      hkept spec' (List.mem_cons_of_mem spec hspec')
    have hreads' : ∀ spec ∈ specs, ∀ ast, spec.target = some ast → rt.ReadsOnly (Looks reg [] ast) ast :=
      fun spec' hspec' => hreads spec' (List.mem_cons_of_mem spec hspec')
    have hpush : ∀ v : Value D, Sliced kept sel { s with histories := historyPush spec.name v s.histories }
        { t with histories := historyPush spec.name v t.histories } := fun v =>
      { h with histories := congrArg (historyPush spec.name v) h.histories }
    have hlooks := hkept spec List.mem_cons_self
    unfold Model.captureHistory
    rw [h.historyValue (hlooks _ .key) fun object field hsplit => hlooks object (.object hsplit)]
    cases s.historyValue spec.name with
    | some v => exact ih (hpush v) hkept' hreads'
    | none =>
      cases htarget : spec.target with
      | none => exact ih h hkept' hreads'
      | some target =>
        have hread := hreads spec List.mem_cons_self target htarget
        have hvalue := hread.value s.view t.view s.effects (h.view fun n hn => hlooks n (.target htarget hn))
        have heff := hread.effects s.view s.effects
        simp only [h.effects, hvalue]
        rcases heval : rt.evalAst target s.view s.effects with ⟨result, eff⟩
        rw [heval] at heff
        obtain rfl : eff = s.effects := heff
        cases result with
        | error err => exact ⟨rfl, { h with effects := rfl }⟩
        | ok v => exact ih { hpush v with effects := rfl } hkept' hreads'

structure Retains (kept : String → Bool) (reg : Registry D) (sel : Selection) (p : Program D) (required : List Bool) : Prop where
  length : p.bindings.length = required.length
  bindings : ∀ x ∈ p.bindings.zip required, Fits kept reg sel x.1 x.2
  outputs : ∀ i n, sel.Selects i → p.outputs[i]? = some n → kept n = true
  captures : sel.historyCaptures = true → ∀ spec ∈ p.historySpecs, ∀ n, spec.Captures reg n → kept n = true

variable {reg : Registry D} {p : Program D} {required : List Bool}

theorem Sliced.finish {s' : Session D χ} (h : Sliced kept sel s t) (hkeeps : Retains kept reg sel p required)
    (hreads : rt.Reads reg p) (hrequested : sel.historyCaptures = true) (hfinish : finish rt p s = (none, s')) :
    ∃ t', Model.finish rt (p.slice required) t = (none, t') ∧ Sliced kept sel s' t' := by
  obtain ⟨hresult, hsliced⟩ := (h.refreshOutputs required hkeeps.outputs).captureHistory
    (hkeeps.captures hrequested) hreads.target
  have hspecs : (p.slice required).historySpecs = p.historySpecs := rfl
  unfold Model.finish at hfinish ⊢
  rw [hspecs]
  rcases hs : Model.captureHistory rt p.historySpecs (Model.refreshOutputs p s) with ⟨result, u⟩
  rcases ht : Model.captureHistory rt p.historySpecs (Model.refreshOutputs (p.slice required) t) with ⟨result', u'⟩
  rw [hs, ht] at hresult hsliced
  obtain rfl : result' = result := hresult
  rw [hs] at hfinish
  cases result' with
  | some err => cases hfinish
  | none =>
    obtain rfl : u = s' := (Prod.mk.inj hfinish).2
    exact ⟨u', rfl, hsliced⟩

theorem Sliced.ready (h : Sliced kept sel s t) :
    Sliced kept sel (readySelected rt p sel s) (readySelected rt (p.slice required) sel t) := by
  have hcleared := (h.clampConstants p required).clearCachedStructs
  unfold readySelected
  by_cases hrequested : sel.stateCommits = true
  · rw [if_pos hrequested, if_pos hrequested]
    exact hcleared.commitPending hrequested
  · rw [if_neg hrequested, if_neg hrequested]
    exact hcleared.drop

theorem Sliced.tick {s' : Session D χ} (h : Sliced kept sel s t) (hkeeps : Retains kept reg sel p required)
    (hreads : rt.Reads reg p) (htick : tickSelected rt p sel s = (none, s')) :
    ∃ t', tickSelected rt (p.slice required) sel t = (none, t') ∧ Sliced kept sel s' t' := by
  unfold tickSelected at htick ⊢
  rcases heval : Model.evalBindings rt p.bindings (readySelected rt p sel s) with ⟨_ | err, u⟩
  · obtain ⟨u', heval', hu⟩ := h.ready.evalBindings hkeeps.length hkeeps.bindings hreads.binding heval
    have hslice : Model.evalBindings rt (p.slice required).bindings (readySelected rt (p.slice required) sel t) = (none, u') :=
      heval'
    rw [heval, proceed_none] at htick
    rw [hslice, proceed_none]
    split at htick
    · rename_i hrequested
      rw [if_pos hrequested]
      exact hu.finish hkeeps hreads hrequested htick
    · rename_i hdeclined
      obtain rfl := (Prod.mk.inj htick).2
      rw [if_neg hdeclined]
      exact ⟨_, rfl, hu.refreshOutputs required hkeeps.outputs⟩
  · rw [heval] at htick
    cases htick

theorem Sliced.run {s₀ : Session D χ} {writes : List (HostWrites D)} (hpending : s₀.pending = [])
    (hkeeps : Retains kept reg sel p required) (hreads : rt.Reads reg p) (h : p.Ran rt sel s₀ writes s) :
    ∃ t, (p.slice required).Ran rt sel s₀ writes t ∧ Sliced kept sel s t := by
  induction h with
  | start => exact ⟨s₀, .start, .refl hpending⟩
  | tick w _ htick ih =>
    obtain ⟨t, hran, hsliced⟩ := ih
    obtain ⟨t', htick', hsliced'⟩ := (hsliced.prepare w).tick hkeeps hreads htick
    exact ⟨t', .tick w hran htick', hsliced'⟩

end
/-- The marks are those of all bindings that the selection can read, and evaluating the marked bindings alone gives the same
    selected outputs, whatever evaluates the expressions. -/
structure LaidOut.SoundMarks [Double D] (p : LaidOut D) (reg : Registry D) (sel : Selection) (required : List Bool) : Prop where
  covers : p.Covers reg sel required
  outputs : ∀ (χ : Type) (rt : Runtime D χ) (children : χ), rt.Reads reg p.toProgram →
    p.SameOutputs rt sel required children

section
variable {p : LaidOut D} {reg : Registry D} {sel : Selection} {required : List Bool} {n : String}

theorem mem_zip_marks {x : Binding D × Bool} (hx : x ∈ p.bindings.zip required) :
    ∃ i : Nat, p.bindings[i]? = some x.1 ∧ required[i]? = some x.2 := by
  obtain ⟨i, hi⟩ := List.mem_iff_getElem?.mp hx
  exact ⟨i, List.getElem?_zip_eq_some.mp hi⟩

theorem kept_of_required (hcovers : p.Covers reg sel required) (hn : sel.Required p.toProgram reg n) :
    p.kept required n = true := by
  refine List.all_eq_true.mpr fun x hx => ?_
  obtain ⟨i, hb, hr⟩ := mem_zip_marks hx
  by_cases hname : x.1.name = n
  · have hmarked := hcovers i x.1 hb (hname ▸ hn)
    have hmark : x.2 = true := Option.some.inj (hr.symm.trans hmarked)
    simp [hmark]
  · simp [hname]

theorem kept_name {i : Nat} {b : Binding D} {r : Bool} (hb : p.bindings[i]? = some b) (hr : required[i]? = some r) :
    p.kept required b.name = r := by
  have hmem : (b, r) ∈ p.bindings.zip required :=
    List.mem_iff_getElem?.mpr ⟨i, List.getElem?_zip_eq_some.mpr ⟨hb, hr⟩⟩
  cases r with
  | false =>
    refine Bool.eq_false_iff.mpr fun hall => ?_
    have hself := List.all_eq_true.mp hall _ hmem
    simp at hself
  | true =>
    refine List.all_eq_true.mpr fun x hx => ?_
    obtain ⟨j, hb', hr'⟩ := mem_zip_marks hx
    by_cases hname : x.1.name = b.name
    · have hindex := index_of_mem p.toProgram hb'
      rw [hname, index_of_mem p.toProgram hb] at hindex
      obtain rfl := Option.some.inj hindex
      have hmark : x.2 = true := Option.some.inj (hr'.symm.trans hr)
      simp [hmark]
    · simp [hname]

theorem keeps_of_covers (h : p.markRequiredBindings sel = .ok required) (hcovers : p.Covers reg sel required) :
    Retains (p.kept required) reg sel p.toProgram required where
  length := by simpa using (markRequiredBindings_visited h).length.symm
  bindings := by
    intro x hx
    obtain ⟨i, hb, hr⟩ := mem_zip_marks hx
    refine ⟨kept_name hb hr, fun hmark n hn => ?_, fun hcommits hkind => ?_⟩
    · have hwalks := (marked_iff h hb).mp (hmark ▸ hr)
      exact kept_of_required hcovers (.read (required_of_walks hwalks) (.binding (List.mem_of_getElem? hb) hn))
    · have hmarked := hcovers i x.1 hb (.root (.commit hcommits (List.mem_of_getElem? hb) hkind))
      exact Option.some.inj (hr.symm.trans hmarked)
  outputs := fun _ _ hi hn => kept_of_required hcovers (.root (.output hi hn))
  captures := fun hrequested _ hspec _ hn => kept_of_required hcovers (.root (.capture hrequested hspec hn))

variable [Double D]

end
mutual

theorem looks_of_astNames (reg : Registry D) {ast : Ast D} {n : String} (hn : n ∈ astNames ast) : Looks reg [] ast n := by
  cases ast with
  | identifier name =>
    obtain rfl := List.mem_singleton.mp hn
    exact .identifier (by simp)
  | param name => exact .param hn
  | unary op a => exact .part (show a ∈ parts _ by simp [parts]) (looks_of_astNames reg hn)
  | binary op l r =>
    rcases List.mem_append.mp hn with hn | hn
    · exact .part (show l ∈ parts _ by simp [parts]) (looks_of_astNames reg hn)
    · exact .part (show r ∈ parts _ by simp [parts]) (looks_of_astNames reg hn)
  | ternary c t e =>
    rcases List.mem_append.mp hn with hn | hn
    · exact .part (show c ∈ parts _ by simp [parts]) (looks_of_astNames reg hn)
    · rcases List.mem_append.mp hn with hn | hn
      · exact .part (show t ∈ parts _ by simp [parts]) (looks_of_astNames reg hn)
      · exact .part (show e ∈ parts _ by simp [parts]) (looks_of_astNames reg hn)
  | call name args argNames =>
    obtain ⟨a, ha, hlooks⟩ := looks_of_astNamesList reg hn
    exact .part ha hlooks
  | array es =>
    obtain ⟨a, ha, hlooks⟩ := looks_of_astNamesList reg hn
    exact .part ha hlooks
  | index t i =>
    rcases List.mem_append.mp hn with hn | hn
    · exact .part (show t ∈ parts _ by simp [parts]) (looks_of_astNames reg hn)
    · exact .part (show i ∈ parts _ by simp [parts]) (looks_of_astNames reg hn)
  | number | int64 | bool | string | record | fieldAccess | fieldOf | chainAccess | producerAccess => simp [astNames] at hn

theorem looks_of_astNamesList (reg : Registry D) {asts : List (Ast D)} {n : String} (hn : n ∈ astNamesList asts) :
    ∃ a ∈ asts, Looks reg [] a n := by
  cases asts with
  | nil => simp [astNamesList] at hn
  | cons a as =>
    rcases List.mem_append.mp hn with hn | hn
    · exact ⟨a, List.mem_cons_self, looks_of_astNames reg hn⟩
    · obtain ⟨a', ha', hlooks⟩ := looks_of_astNamesList reg hn
      exact ⟨a', List.mem_cons_of_mem a ha', hlooks⟩

end

section
variable [Double D] {reg : Registry D} {indexed : Bool} {depth : Nat} {all : List String} {nan : D}

end

/-- `input c` and the output `y` with `a = c` and the given expression of `y`. -/
def relay (ast : Ast Int) : LaidOut Int where
  constants := []
  stateDefaults := []
  bindings := [⟨"a", .expr, .number, false, .identifier "c"⟩, ⟨"y", .expr, .number, false, ast⟩]
  inputs := ["c"]
  outputs := ["y"]
  historySpecs := []
  binding_names := by simp
  state_names := List.nodup_nil
  input_free := by simp
  update_known := by simp
  expr_free := by simp
  layout := some ⟨["c", "a", "y"], [⟨"c", 0, .number⟩], [], [⟨"y", 2, .number⟩], [⟨"y", 2, .number⟩]⟩
  layout_outputs := by
    intro l h
    obtain rfl := Option.some.inj h
    rfl
  layout_commits := by
    intro l h
    obtain rfl := Option.some.inj h
    exact List.Perm.nil

def outputsOnly : Selection := ⟨none, false, false⟩

/-- `y = [a, 1][0]`. -/
def relayArray : LaidOut Int := relay (.index (.array [.identifier "a", .number 1]) (.number 0))

def relayRuntime : Runtime Int Unit := treeRuntime {} 1 ["c", "a", "y"] 0

def relayNew : Session Int Unit := blank relayRuntime relayArray.toProgram ()

def relayTick : Option Error × Session Int Unit :=
  tickSelected relayRuntime relayArray.toProgram outputsOnly (prepare ⟨[("c", .number 5)], []⟩ relayNew)

end Cxpr.Model
