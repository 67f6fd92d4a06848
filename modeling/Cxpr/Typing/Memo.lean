import Cxpr.Lib.Yields
import Cxpr.Typing.Congruence

/-! The memo never holds a value of another type than the node it is found for, whatever is evaluated: the invariant
    behind the soundness of certain types. -/

namespace Cxpr.Typecheck
open Eval Stateful
variable {D : Type} [Double D]

def MemoFits (reg : Registry D) : Set (Context D) :=
  {ctx | ∀ f ∈ ctx.head?, ∀ entry ∈ f.evalMemo, ∀ ast, memoMatches ast entry = true → Fits (certain reg ast) entry.2}

abbrev Keeps (reg : Registry D) {α : Type} (act : EvalM D α) : Prop := Yields (MemoFits reg) act fun _ => True

variable {reg : Registry D} {α : Type} {P : α → Prop}

theorem memoFits_cons {f : Frame D} (parent : Context D) (h : f.evalMemo = []) : f :: parent ∈ MemoFits reg := by
  intro g hg entry hentry
  obtain rfl : f = g := by simpa using hg
  simp [h] at hentry

theorem memoFits_update {ctx : Context D} (hctx : ctx ∈ MemoFits reg) {write : Frame D → Frame D}
    (hwrite : ∀ f, (write f).evalMemo = f.evalMemo) : ctx.update write ∈ MemoFits reg := by
  cases ctx with
  | nil => exact hctx
  | cons f parent =>
    intro g hg entry hentry
    obtain rfl : write f = g := by simpa [Context.update] using hg
    rw [hwrite] at hentry
    exact hctx f rfl entry hentry

theorem yields_evalError (code : ErrorCode) (message : String) :
    Yields (MemoFits reg) (evalError code message : EvalM D α) P :=
  Yields.throw _

variable {act : EvalM D α} {acts : List (EvalM D (Value D))}

theorem yields_inOverlay {tmp : Frame D} (htmp : tmp.evalMemo = [])
    (h : Yields (MemoFits reg) act P) : Yields (MemoFits reg) (inOverlay tmp act) P := by
  intro ctx hctx a ctx' hact
  simp only [inOverlay] at hact
  obtain ⟨⟨b, final⟩, hrun, hret⟩ := bind_eq_ok.mp hact
  cases hret
  exact ⟨hctx, (h _ (memoFits_cons ctx htmp) _ _ hrun).2⟩

theorem yields_wrapDefinedError {name : String} (h : Yields (MemoFits reg) act P) :
    Yields (MemoFits reg) (wrapDefinedError name act) P := by
  intro ctx hctx a ctx' hact
  unfold wrapDefinedError at hact
  split at hact
  · rename_i hrun
    cases hact
    exact h ctx hctx a ctx' hrun
  · cases hact

theorem keeps_of_yields (h : Yields (MemoFits reg) act P) : Keeps reg act :=
  h.mono fun _ _ => trivial

theorem yields_memoGet (ast : Ast D) :
    Yields (MemoFits reg) (memoGet ast) fun found => ∀ v, found = some v → Fits (certain reg ast) v := by
  intro ctx hctx found ctx' hact
  unfold memoGet at hact
  split at hact
  · cases hact
    exact ⟨hctx, fun v hv => nomatch hv⟩
  · rename_i f parent
    split at hact
    · cases hact
      exact ⟨hctx, fun v hv => nomatch hv⟩
    · cases hact
      refine ⟨hctx, fun v hv => ?_⟩
      obtain ⟨entry, hfind, rfl⟩ := Option.map_eq_some_iff.mp hv
      exact hctx f rfl entry (List.mem_of_find?_eq_some hfind) ast (List.find?_some hfind)

theorem yields_memoSet
    (hselect : ∀ a b, astEqual a b = true → reg.selectIndexCapability a = reg.selectIndexCapability b) {ast : Ast D}
    {v : Value D} (hv : Fits (certain reg ast) v) : Keeps reg (memoSet ast v) := by
  intro ctx hctx u ctx' hact
  refine ⟨?_, trivial⟩
  unfold memoSet at hact
  split at hact
  · cases hact
    exact hctx
  · rename_i f parent
    have hadded : ({ f with evalMemo := f.evalMemo ++ [(ast, v)] } : Frame D) :: parent ∈ MemoFits reg := by
      intro g hg entry hentry ast' hmatch
      obtain rfl : { f with evalMemo := f.evalMemo ++ [(ast, v)] } = g := by simpa using hg
      rcases List.mem_append.mp hentry with hold | hnew
      · exact hctx f rfl entry hold ast' hmatch
      · obtain rfl := List.mem_singleton.mp hnew
        simp only [memoMatches, Bool.and_eq_true] at hmatch
        rw [← (alike_of_astEqual hselect hmatch.2).certain]
        exact hv
    split at hact
    · cases hact
      exact hctx
    · split at hact <;> cases hact
      · exact hadded
      · exact hadded
      · exact hctx

def KeepsAll (reg : Registry D) (acts : List (EvalM D (Value D))) : Prop := ∀ act ∈ acts, Keeps reg act

theorem keeps_evalAll (h : KeepsAll reg acts) : Keeps reg (evalAll acts) := by
  induction acts with
  | nil => exact Yields.pure trivial
  | cons act acts ih =>
    refine (h act (by simp)).andThen fun v => ?_
    exact (ih fun a ha => h a (List.mem_cons_of_mem _ ha)).andThen fun vs => Yields.pure trivial

theorem keeps_scalarArg {act : EvalM D (Value D)} (h : Keeps reg act) : Keeps reg (scalarArg act) :=
  h.andThen fun _ => Yields.lift fun _ _ => trivial

theorem keeps_scalarArgs (h : KeepsAll reg acts) : Keeps reg (scalarArgs acts) := by
  induction acts with
  | nil => exact Yields.pure trivial
  | cons act acts ih =>
    refine (keeps_scalarArg (h act (by simp))).andThen fun d => ?_
    exact (ih fun a ha => h a (List.mem_cons_of_mem _ ha)).andThen fun ds => Yields.pure trivial

theorem keeps_structResult {entry : FuncEntry D} {name : String} {key : Option String}
    (h : KeepsAll reg acts) : Keeps reg (structResult entry name acts key) := by
  unfold structResult
  split
  · exact yields_evalError _ _
  · split
    · exact yields_evalError _ _
    · split
      · exact yields_evalError _ _
      · refine (keeps_scalarArgs h).andThen fun args => Yields.read fun ctx hctx => ?_
        split
        · exact Yields.pure trivial
        · refine Yields.andThen (Yields.modify fun c hc => ?_) fun _ => Yields.pure trivial
          exact memoFits_update hc fun f => rfl

def contextField (reg : Registry D) (ctx : Context D) (object field : String) : EvalM D (Value D) :=
  match ctx.getField object field with
  | some v => Pure.pure v
  | none =>
    match ctx.get (Ast.fullKey [object, field]) with
    | some d => Pure.pure (.number d)
    | none =>
      match reg.find object with
      | some entry =>
        if entry.structProducer.isSome then do
          producedField (← structResult entry object [] none) field
        else evalError .unknownIdentifier (unknownMessage "Unknown field access" (Ast.fullKey [object, field]))
      | none => evalError .unknownIdentifier (unknownMessage "Unknown field access" (Ast.fullKey [object, field]))

theorem keeps_evalFieldAccess (object field : String) : Keeps reg (evalFieldAccess reg object field) := by
  refine Yields.read fun ctx hctx => ?_
  have hcontext : Keeps reg (contextField reg ctx object field) := by
    unfold contextField
    split
    · exact Yields.pure trivial
    · split
      · exact Yields.pure trivial
      · split
        · split
          · exact (keeps_structResult (by simp [KeepsAll])).andThen fun _ => Yields.lift fun _ _ => trivial
          · exact yields_evalError _ _
        · exact yields_evalError _ _
  dsimp only
  split
  · exact hcontext
  · split
    · exact Yields.pure trivial
    · exact Yields.lift fun _ _ => trivial
    · exact yields_evalError _ _
    · exact hcontext

theorem keeps_arrayIndex {values : List (Value D)} {index : EvalM D (Value D)} (h : Keeps reg index) :
    Keeps reg (arrayIndex values index) := by
  refine h.andThen fun i => ?_
  split
  · exact yields_evalError _ _
  · split
    · exact Yields.pure trivial
    · exact yields_evalError _ _

end Cxpr.Typecheck
