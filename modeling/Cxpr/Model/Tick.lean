import Cxpr.Model.Session

/-! What each part of a tick changes, name by name: the cells of the context, the state buffers and what is staged. -/

namespace Cxpr.Model
variable {D χ : Type} {n m : String} {v : Value D} {b : Binding D}

theorem find?_of_nodup {α : Type} {f : α → String} {l : List α} {a : α} (hnodup : (l.map f).Nodup) (ha : a ∈ l) :
    l.find? (fun x => f x == f a) = some a := by
  induction l with
  | nil => cases ha
  | cons x l ih =>
    obtain ⟨hx, hl⟩ := List.nodup_cons.mp hnodup
    rcases List.mem_cons.mp ha with rfl | ha
    · exact List.find?_cons_of_pos (by simp)
    · have hne : ¬ f x = f a := fun h => hx (List.mem_map.mpr ⟨a, ha, h.symm⟩)
      rw [List.find?_cons_of_neg (by simpa using hne)]
      exact ih hl ha

section
variable {entries : List (HistoryEntry D)} {e : HistoryEntry D}

theorem historyPush_cons (n : String) (v : Value D) (e : HistoryEntry D) (entries : List (HistoryEntry D)) :
    historyPush n v (e :: entries) =
      if e.name = n then { e with ring := e.ring.push v } :: entries else e :: historyPush n v entries := by
  unfold historyPush
  rw [List.replaceF_cons]
  by_cases h : e.name = n
  · simp [h]
  · simp [h]

theorem find_historyPush_self (h : entries.find? (·.name == n) = some e) :
    (historyPush n v entries).find? (·.name == n) = some { e with ring := e.ring.push v } := by
  induction entries with
  | nil => cases h
  | cons x entries ih =>
    rw [historyPush_cons]
    by_cases hx : x.name = n
    · rw [List.find?_cons_of_pos (by simpa using hx)] at h
      obtain rfl := Option.some.inj h
      rw [if_pos hx]
      exact List.find?_cons_of_pos (by simpa using hx)
    · rw [List.find?_cons_of_neg (by simpa using hx)] at h
      rw [if_neg hx, List.find?_cons_of_neg (by simpa using hx)]
      exact ih h

theorem find_historyPush_of_ne (hne : m ≠ n) (entries : List (HistoryEntry D)) :
    (historyPush n v entries).find? (·.name == m) = entries.find? (·.name == m) := by
  induction entries with
  | nil => rfl
  | cons x entries ih =>
    rw [historyPush_cons]
    by_cases hx : x.name = n
    · have hxm : ¬ x.name = m := fun h => hne (h.symm.trans hx)
      rw [if_pos hx, List.find?_cons_of_neg (by simpa using hxm), List.find?_cons_of_neg (by simpa using hxm)]
    · rw [if_neg hx, List.find?_cons, List.find?_cons, ih]

theorem historyPush_comm (hne : n ≠ m) (v w : Value D) (entries : List (HistoryEntry D)) :
    historyPush m w (historyPush n v entries) = historyPush n v (historyPush m w entries) := by
  induction entries with
  | nil => rfl
  | cons e entries ih =>
    by_cases hn : e.name = n
    · have hm : ¬ e.name = m := fun h => hne (hn.symm.trans h)
      simp only [historyPush_cons, if_pos hn, if_neg hm]
    · by_cases hm : e.name = m
      · simp only [historyPush_cons, if_neg hn, if_pos hm]
      · simp only [historyPush_cons, if_neg hn, if_neg hm, ih]

theorem historyPush_eq_self (h : ∀ e, entries.find? (·.name == n) = some e → e.ring.values.length = 0) :
    historyPush n v entries = entries := by
  induction entries with
  | nil => rfl
  | cons x entries ih =>
    rw [historyPush_cons]
    by_cases hx : x.name = n
    · have hzero := h x (List.find?_cons_of_pos (by simpa using hx))
      rw [if_pos hx, SampleRing.push, if_pos hzero]
    · rw [if_neg hx, ih fun e he => h e (by rw [List.find?_cons_of_neg (by simpa using hx)]; exact he)]

end

/-! ### Writes -/

def Session.buffer? (s : Session D χ) (n : String) : Option (HistoryEntry D) := s.stateBuffers.find? (·.name == n)

def AgreeAt (n : String) (s t : Session D χ) : Prop := t.ctx.cell n = s.ctx.cell n ∧ t.buffer? n = s.buffer? n

theorem AgreeAt.refl (n : String) (s : Session D χ) : AgreeAt n s s := ⟨rfl, rfl⟩

theorem AgreeAt.trans {s t u : Session D χ} (h : AgreeAt n s t) (h' : AgreeAt n t u) : AgreeAt n s u :=
  ⟨h'.1.trans h.1, h'.2.trans h.2⟩

theorem agreeAt_write (s : Session D χ) (v : Value D) (hne : n ≠ m) :
    AgreeAt n s { s with ctx := s.ctx.setValue m v } :=
  ⟨Frame.cell_setValue_of_ne s.ctx v hne, rfl⟩

structure HostWrites (D : Type) where
  inputs : List (String × Value D)
  params : List (String × Value D)

def prepare (w : HostWrites D) (s : Session D χ) : Session D χ :=
  { s with ctx := w.params.foldl (fun f x => f.setParamValue x.1 x.2) (w.inputs.foldl (fun f x => f.setValue x.1 x.2) s.ctx) }

theorem cell_foldl_setValue (writes : List (String × Value D)) (f : Frame D) (hfree : ∀ x ∈ writes, n ≠ x.1) :
    (writes.foldl (fun f x => f.setValue x.1 x.2) f).cell n = f.cell n := by
  induction writes generalizing f with
  | nil => rfl
  | cons x writes ih =>
    rw [List.foldl_cons, ih _ fun y hy => hfree y (List.mem_cons_of_mem x hy)]
    exact Frame.cell_setValue_of_ne f x.2 (hfree x List.mem_cons_self)

theorem cell_foldl_setValue_mem {writes : List (String × Value D)} (hnodup : (writes.map (·.1)).Nodup)
    (hmem : (n, v) ∈ writes) (f : Frame D) :
    (writes.foldl (fun f x => f.setValue x.1 x.2) f).cell n = (f.cell n).put v := by
  induction writes generalizing f with
  | nil => cases hmem
  | cons x writes ih =>
    obtain ⟨hx, hrest⟩ := List.nodup_cons.mp hnodup
    rw [List.foldl_cons]
    rcases List.mem_cons.mp hmem with rfl | hmem
    · rw [cell_foldl_setValue writes _ fun y hy heq => hx (List.mem_map.mpr ⟨y, hy, heq.symm⟩)]
      exact Frame.cell_setValue_self f n v
    · have hne : n ≠ x.1 := fun heq => hx (List.mem_map.mpr ⟨(n, v), hmem, heq⟩)
      rw [ih hrest hmem, Frame.cell_setValue_of_ne f x.2 hne]

theorem cell_foldl_setParamValue (writes : List (String × Value D)) (f : Frame D) (hfree : ∀ x ∈ writes, n ≠ x.1) :
    (writes.foldl (fun f x => f.setParamValue x.1 x.2) f).cell n = f.cell n := by
  induction writes generalizing f with
  | nil => rfl
  | cons x writes ih =>
    rw [List.foldl_cons, ih _ fun y hy => hfree y (List.mem_cons_of_mem x hy)]
    exact Frame.cell_setParamValue_of_ne f x.2 (hfree x List.mem_cons_self)

theorem agreeAt_prepare {w : HostWrites D} (s : Session D χ) (hinputs : ∀ x ∈ w.inputs, n ≠ x.1)
    (hparams : ∀ x ∈ w.params, n ≠ x.1) : AgreeAt n s (prepare w s) := by
  refine ⟨?_, rfl⟩
  show Frame.cell (w.params.foldl _ _) n = _
  rw [cell_foldl_setParamValue w.params _ hparams, cell_foldl_setValue w.inputs _ hinputs]

section
variable [Double D]

theorem clampConstants_eq (cs : List (Constant D)) (s : Session D χ) :
    ∃ ctx, cs.foldl clampConstant s = { s with ctx := ctx } ∧ ctx.paramStores = s.ctx.paramStores ∧
      ∀ n, (∀ c ∈ cs, c.limited = true → n ≠ c.name) → ctx.cell n = s.ctx.cell n := by
  induction cs generalizing s with
  | nil => exact ⟨s.ctx, rfl, rfl, fun _ _ => rfl⟩
  | cons c cs ih =>
    rw [List.foldl_cons]
    unfold clampConstant
    split
    · rename_i hlimited
      split
      · obtain ⟨ctx, heq, hparams, hcells⟩ := ih s
        exact ⟨ctx, heq, hparams, fun n hn => hcells n fun c' hc' => hn c' (List.mem_cons_of_mem c hc')⟩
      · rename_i value hvalue
        obtain ⟨ctx, heq, hparams, hcells⟩ := ih { s with ctx := s.ctx.set c.name (c.clamp value) }
        refine ⟨ctx, heq, hparams.trans (Frame.paramStores_setValue s.ctx c.name (.number _)), fun n hn => ?_⟩
        rw [hcells n fun c' hc' => hn c' (List.mem_cons_of_mem c hc')]
        exact Frame.cell_setValue_of_ne s.ctx (.number _) (hn c List.mem_cons_self hlimited)
    · obtain ⟨ctx, heq, hparams, hcells⟩ := ih s
      exact ⟨ctx, heq, hparams, fun n hn => hcells n fun c' hc' => hn c' (List.mem_cons_of_mem c hc')⟩

end

variable {rt : Runtime D χ}

theorem agreeAt_pushBuffer (s : Session D χ) (hne : n ≠ m) : AgreeAt n s (pushBuffer rt m v s) := by
  unfold pushBuffer
  split
  · exact AgreeAt.refl n s
  · split
    · exact AgreeAt.refl n s
    · exact ⟨Frame.cell_setValue_of_ne s.ctx _ hne, find_historyPush_of_ne hne _⟩

theorem agreeAt_commitValue (s : Session D χ) (x : Binding D × Value D) (hne : n ≠ x.1.name) :
    AgreeAt n s (commitValue rt s x) := by
  unfold commitValue
  split
  · exact agreeAt_pushBuffer s hne
  · exact agreeAt_write s x.2 hne

theorem agreeAt_commit (l : List (Binding D × Value D)) (s : Session D χ) (hfree : ∀ x ∈ l, n ≠ x.1.name) :
    AgreeAt n s (l.foldl (commitValue rt) s) := by
  induction l generalizing s with
  | nil => exact AgreeAt.refl n s
  | cons x l ih =>
    have hrest := ih (commitValue rt s x) fun y hy => hfree y (List.mem_cons_of_mem x hy)
    exact (agreeAt_commitValue s x (hfree x List.mem_cons_self)).trans hrest

theorem agreeAt_commit_mem (rt : Runtime D χ) {l : List (Binding D × Value D)} (hnodup : (l.map (·.1.name)).Nodup) (hmem : (b, v) ∈ l)
    (s : Session D χ) :
    ∃ t, AgreeAt b.name s t ∧ AgreeAt b.name (commitValue rt t (b, v)) (l.foldl (commitValue rt) s) := by
  induction l generalizing s with
  | nil => cases hmem
  | cons x l ih =>
    obtain ⟨hx, hl⟩ := List.nodup_cons.mp hnodup
    rcases List.mem_cons.mp hmem with rfl | hmem
    · refine ⟨s, AgreeAt.refl _ s, agreeAt_commit l _ fun y hy hname => hx ?_⟩
      exact List.mem_map.mpr ⟨y, hy, hname.symm⟩
    · obtain ⟨t, ht, hl'⟩ := ih hl hmem (commitValue rt s x)
      have hne : b.name ≠ x.1.name := fun h => hx (List.mem_map.mpr ⟨(b, v), hmem, h⟩)
      exact ⟨t, (agreeAt_commitValue s x hne).trans ht, hl'⟩

theorem commit_frame (rt : Runtime D χ) (l : List (Binding D × Value D)) (s : Session D χ) :
    (l.foldl (commitValue rt) s).effects = s.effects ∧ (l.foldl (commitValue rt) s).outputs = s.outputs ∧
      (l.foldl (commitValue rt) s).histories = s.histories ∧
      (l.foldl (commitValue rt) s).ctx.paramStores = s.ctx.paramStores := by
  induction l generalizing s with
  | nil => exact ⟨rfl, rfl, rfl, rfl⟩
  | cons x l ih =>
    have hstep : (commitValue rt s x).effects = s.effects ∧ (commitValue rt s x).outputs = s.outputs ∧
        (commitValue rt s x).histories = s.histories ∧
        (commitValue rt s x).ctx.paramStores = s.ctx.paramStores := by
      unfold commitValue
      split
      · unfold pushBuffer
        split
        · exact ⟨rfl, rfl, rfl, rfl⟩
        · split
          · exact ⟨rfl, rfl, rfl, rfl⟩
          · exact ⟨rfl, rfl, rfl, Frame.paramStores_setValue _ _ _⟩
      · exact ⟨rfl, rfl, rfl, Frame.paramStores_setValue _ _ _⟩
    obtain ⟨heff, hout, hhist, hparams⟩ := ih (commitValue rt s x)
    exact ⟨heff.trans hstep.1, hout.trans hstep.2.1, hhist.trans hstep.2.2.1, hparams.trans hstep.2.2.2⟩

end Cxpr.Model
