import Cxpr.Eval.Agree
import Cxpr.Eval.Renaming

/-! The evaluator on a renamed expression. The contexts of the two evaluations differ in their memo tables only, whose keys
    are renamed. -/

namespace Cxpr
open Stateful
variable {D : Type}

/-! ### Contexts -/

def Frame.forget (f : Frame D) : Frame D := { f with evalMemo := [] }

/-- Contexts that differ in their memo tables, of which the first has renamed keys. -/
inductive Renamed (ρ : String → String) (N : Set String) (L : Set D) : Context D → Context D → Prop
  | nil : Renamed ρ N L [] []
  | cons {f : Frame D} {parent parent' : Context D} (hmemo : ∀ entry ∈ f.evalMemo, entry.1.Within N L)
      (hparents : parent.map Frame.forget = parent'.map Frame.forget) :
      Renamed ρ N L (f :: parent)
        ({ f with evalMemo := f.evalMemo.map fun entry => (entry.1.mapCalls ρ, entry.2) } :: parent')

namespace Renamed
variable {ρ : String → String} {N : Set String} {L : Set D} {c c' : Context D}

theorem forget (h : Renamed ρ N L c c') : c.map Frame.forget = c'.map Frame.forget := by
  cases h with
  | nil => rfl
  | cons hmemo hparents =>
    rw [List.map_cons, List.map_cons, hparents]
    rfl

theorem read (h : Renamed ρ N L c c') {X : Type} {r : Context D → X} (hr : ∀ c, r (c.map Frame.forget) = r c) :
    r c' = r c := by
  rw [← hr c', ← h.forget, hr c]

theorem push (h : Renamed ρ N L c c') {f : Frame D} (hf : f.evalMemo = []) : Renamed ρ N L (f :: c) (f :: c') := by
  have hcons := Renamed.cons (f := f) (ρ := ρ) (N := N) (L := L) (by rw [hf]; simp) h.forget
  rw [hf] at hcons
  have hsame : { f with evalMemo := List.map (fun entry : Ast D × Value D => (entry.1.mapCalls ρ, entry.2)) [] } = f := by
    rw [List.map_nil, ← hf]
  rwa [hsame] at hcons

theorem update (h : Renamed ρ N L c c') {write : Frame D → Frame D} (hkeeps : ∀ f, (write f).evalMemo = f.evalMemo)
    (hwrite : ∀ f memo, write { f with evalMemo := memo } = { write f with evalMemo := memo }) :
    Renamed ρ N L (c.update write) (c'.update write) := by
  cases h with
  | nil => exact .nil
  | cons hmemo hparents =>
    rename_i f parent parent'
    have hcons := Renamed.cons (f := write f) (ρ := ρ) (N := N) (L := L) (by rw [hkeeps]; exact hmemo) hparents
    rw [hkeeps] at hcons
    have hright := hwrite f (f.evalMemo.map fun entry => (entry.1.mapCalls ρ, entry.2))
    show Renamed ρ N L (write f :: parent) (write _ :: parent')
    rw [hright]
    exact hcons

end Renamed

namespace Context

theorem getTyped_forget (name : String) (c : Context D) : getTyped (c.map Frame.forget) name = getTyped c name := by
  induction c with
  | nil => rfl
  | cons f c ih => rw [List.map_cons, getTyped, getTyped, ih]; rfl

theorem getStruct_forget (name : String) (c : Context D) : getStruct (c.map Frame.forget) name = getStruct c name := by
  induction c with
  | nil => rfl
  | cons f c ih => rw [List.map_cons, getStruct, getStruct, ih]; rfl

theorem getCachedStruct_forget (name : String) (c : Context D) :
    getCachedStruct (c.map Frame.forget) name = getCachedStruct c name := by
  induction c with
  | nil => rfl
  | cons f c ih => rw [List.map_cons, getCachedStruct, getCachedStruct, ih]; rfl

theorem getParam_forget (name : String) (c : Context D) : getParam (c.map Frame.forget) name = getParam c name := by
  induction c with
  | nil => rfl
  | cons f c ih => rw [List.map_cons, getParam, getParam, ih]; rfl

theorem getParamTyped_forget (name : String) (c : Context D) :
    getParamTyped (c.map Frame.forget) name = getParamTyped c name := by
  induction c with
  | nil => rfl
  | cons f c ih =>
    have hparam := getParam_forget name (f :: c)
    rw [List.map_cons] at hparam ⊢
    rw [getParamTyped, getParamTyped, ih, hparam]
    rfl

theorem getField_forget (name field : String) (c : Context D) :
    getField (c.map Frame.forget) name field = getField c name field := by
  unfold getField
  rw [getStruct_forget, getTyped_forget]

theorem get_forget [Double D] (name : String) (c : Context D) : get (c.map Frame.forget) name = get c name := by
  unfold get
  rw [getTyped_forget]

end Context

namespace Eval

theorem expressionScope_forget (c : Context D) : expressionScope (c.map Frame.forget) = expressionScope c := by
  cases c <;> rfl

theorem structOrCached_forget (name : String) (c : Context D) :
    structOrCached (c.map Frame.forget) name = structOrCached c name := by
  unfold structOrCached
  rw [Context.getStruct_forget, Context.getCachedStruct_forget]

theorem evalChainAccess_forget (path : List String) (c : Context D) :
    evalChainAccess (c.map Frame.forget) path = evalChainAccess c path := by
  unfold evalChainAccess
  simp only [expressionScope_forget, Context.getStruct_forget, Context.getTyped_forget]

theorem structArgField_forget [Double D] (arg : Option String) (struct : Option (List (String × Value D))) (field : String)
    (c : Context D) : structArgField (c.map Frame.forget) arg struct field = structArgField c arg struct field := by
  unfold structArgField
  simp only [Context.getField_forget, Context.get_forget]

theorem copyPrefixedScalars_forget (srcName dstName : String) (dst : Frame D) (c : Context D) :
    copyPrefixedScalars dst srcName dstName (c.map Frame.forget) = copyPrefixedScalars dst srcName dstName c := by
  induction c generalizing dst with
  | nil => rfl
  | cons f c ih =>
    rw [List.map_cons, copyPrefixedScalars, copyPrefixedScalars]
    simp only [ih]
    rfl

end Eval

namespace Renamed
variable {ρ : String → String} {N : Set String} {L : Set D} {c c' : Context D} (h : Renamed ρ N L c c')
include h

theorem getTyped (name : String) : c'.getTyped name = c.getTyped name :=
  h.read (r := fun c => Context.getTyped c name) (Context.getTyped_forget name)

theorem getParamTyped (name : String) : c'.getParamTyped name = c.getParamTyped name :=
  h.read (r := fun c => Context.getParamTyped c name) (Context.getParamTyped_forget name)

theorem getField (name field : String) : c'.getField name field = c.getField name field :=
  h.read (r := fun c => Context.getField c name field) (Context.getField_forget name field)

theorem structOrCached (name : String) : Eval.structOrCached c' name = Eval.structOrCached c name :=
  h.read (r := fun c => Eval.structOrCached c name) (Eval.structOrCached_forget name)

theorem expressionScope : Eval.expressionScope c' = Eval.expressionScope c := h.read Eval.expressionScope_forget

theorem evalChainAccess (path : List String) : Eval.evalChainAccess c' path = Eval.evalChainAccess c path :=
  h.read (r := fun c => Eval.evalChainAccess c path) (Eval.evalChainAccess_forget path)

theorem copyPrefixedScalars (dst : Frame D) (srcName dstName : String) :
    Eval.copyPrefixedScalars dst srcName dstName c' = Eval.copyPrefixedScalars dst srcName dstName c :=
  h.read (Eval.copyPrefixedScalars_forget srcName dstName dst)

variable [Double D]

theorem get (name : String) : c'.get name = c.get name :=
  h.read (r := fun c => Context.get c name) (Context.get_forget name)

theorem structArgField (arg : Option String) (struct : Option (List (String × Value D))) :
    Eval.structArgField c' arg struct = Eval.structArgField c arg struct :=
  funext fun field => h.read (r := fun c => Eval.structArgField c arg struct field)
    (Eval.structArgField_forget arg struct field)

end Renamed

namespace Eval

theorem setValue_evalMemo (f : Frame D) (name : String) (v : Value D) : (f.setValue name v).evalMemo = f.evalMemo := by
  cases v <;> rfl

theorem setValue_memo (f : Frame D) (memo : List (Ast D × Value D)) (name : String) (v : Value D) :
    Frame.setValue { f with evalMemo := memo } name v = { f.setValue name v with evalMemo := memo } := by
  cases v <;> rfl

theorem bindArg_evalMemo (f : Frame D) (name : String) (v : Value D) : (bindArg f name v).evalMemo = f.evalMemo := by
  cases v <;> rfl

theorem bindArgs_evalMemo (names : List String) (values : List (Value D)) : (bindArgs names values).evalMemo = [] := by
  have hfold : ∀ (l : List (String × Value D)) (f : Frame D),
      (l.foldl (fun f p => bindArg f p.1 p.2) f).evalMemo = f.evalMemo := by
    intro l
    induction l with
    | nil => exact fun f => rfl
    | cons p l ih => exact fun f => (ih _).trans (bindArg_evalMemo f p.1 p.2)
  exact hfold _ _

theorem copyPrefixedScalars_evalMemo (srcName dstName : String) (dst : Frame D) (c : Context D) :
    (copyPrefixedScalars dst srcName dstName c).1.evalMemo = dst.evalMemo := by
  have hfold : ∀ (l : List (String × D)) (f : Frame D), (l.foldl (fun f p => f.set p.1 p.2) f).evalMemo = f.evalMemo := by
    intro l
    induction l with
    | nil => exact fun f => rfl
    | cons p l ih => exact fun f => ih _
  induction c generalizing dst with
  | nil => rfl
  | cons f c ih =>
    rw [copyPrefixedScalars]
    exact (ih _).trans (hfold _ _)

theorem bindFields_evalMemo [Double D] {pname : String} {value : String → Except Error D} {fields : List String}
    {tmp tmp' : Frame D} (h : bindFields pname value fields tmp = .ok tmp') : tmp'.evalMemo = tmp.evalMemo := by
  induction fields generalizing tmp with
  | nil =>
    cases h
    rfl
  | cons field fields ih =>
    rw [bindFields] at h
    cases hvalue : value field with
    | error e =>
      rw [hvalue] at h
      cases h
    | ok d =>
      rw [hvalue] at h
      exact (ih h).trans rfl

/-! ### Parts of the evaluator -/

section
variable {ρ : String → String} {N : Set String} {L : Set D}

theorem memoSet_renamed {ast : Ast D} (hast : ast.Within N L) (v : Value D) :
    Parallel (Renamed ρ N L) (memoSet ast v) (memoSet (ast.mapCalls ρ) v) := by
  intro c c' h
  cases h with
  | nil => exact .ok .nil trivial
  | cons hmemo hparents =>
    rename_i f parent parent'
    simp only [memoSet]
    split
    · exact .ok (.cons hmemo hparents) trivial
    · have hstored : Renamed ρ N L ({ f with evalMemo := f.evalMemo ++ [(ast, v)] } :: parent)
          ({ f with evalMemo := f.evalMemo.map (fun entry => (entry.1.mapCalls ρ, entry.2)) ++ [(ast.mapCalls ρ, v)] } ::
            parent') := by
        have hcons := Renamed.cons (f := { f with evalMemo := f.evalMemo ++ [(ast, v)] }) (ρ := ρ) (N := N) (L := L)
          (by
            intro entry hentry
            rcases List.mem_append.mp hentry with hentry | hentry
            · exact hmemo entry hentry
            · rw [List.mem_singleton.mp hentry]
              exact hast) hparents
        simpa using hcons
      cases v with
      | number d => exact .ok hstored trivial
      | bool b => exact .ok hstored trivial
      | _ => exact .ok (.cons hmemo hparents) trivial

theorem inOverlay_renamed {α : Type} {Q : α → Prop} {tmp : Frame D} (htmp : tmp.evalMemo = []) {act act' : EvalM D α}
    (h : Parallel (Renamed ρ N L) act act' Q) : Parallel (Renamed ρ N L) (inOverlay tmp act) (inOverlay tmp act') Q := by
  intro c c' hc
  have hact := h _ _ (hc.push htmp)
  show Both _ Q (act (tmp :: c) >>= fun p => .ok (p.1, c)) (act' (tmp :: c') >>= fun p => .ok (p.1, c'))
  generalize act (tmp :: c) = x at hact ⊢
  generalize act' (tmp :: c') = y at hact ⊢
  cases hact with
  | ok hR hQ => exact .ok hc hQ
  | error e e' => exact .error e e'

theorem wrapDefinedError_renamed {α : Type} {Q : α → Prop} (name name' : String) {act act' : EvalM D α}
    (h : Parallel (Renamed ρ N L) act act' Q) :
    Parallel (Renamed ρ N L) (wrapDefinedError name act) (wrapDefinedError name' act') Q := by
  intro c c' hc
  have hact := h c c' hc
  unfold wrapDefinedError
  generalize act c = x at hact ⊢
  generalize act' c' = y at hact ⊢
  cases hact with
  | ok hR hQ => exact .ok hR hQ
  | error e e' => exact .error _ _

theorem evalTernary_renamed {message : String} {c c' t t' e e' : EvalM D (Value D)}
    (hc : Parallel (Renamed ρ N L) c c') (ht : Parallel (Renamed ρ N L) t t') (he : Parallel (Renamed ρ N L) e e') :
    Parallel (Renamed ρ N L) (evalTernary message c t e) (evalTernary message c' t' e') := by
  refine hc.andThen fun v => (Parallel.lift rfl fun _ _ => trivial).andThen fun b => ?_
  cases b with
  | true => exact ht
  | false => exact he

variable [Double D]

theorem memoGet_renamed (hL : Literals L) (hρ : Set.InjOn ρ N) {ast : Ast D} (hast : ast.Within N L) :
    Parallel (Renamed ρ N L) (memoGet ast) (memoGet (ast.mapCalls ρ)) := by
  intro c c' h
  cases h with
  | nil => exact .ok .nil trivial
  | cons hmemo hparents =>
    rename_i f parent parent'
    have hfind : ((f.evalMemo.map fun entry => (entry.1.mapCalls ρ, entry.2)).find? (memoMatches (ast.mapCalls ρ))).map
        Prod.snd = (f.evalMemo.find? (memoMatches ast)).map Prod.snd := by
      generalize f.evalMemo = memo at hmemo
      induction memo with
      | nil => rfl
      | cons entry memo ih =>
        rw [List.map_cons, List.find?_cons, List.find?_cons,
          memoMatches_mapCalls hL hρ (hmemo entry (by simp)) hast entry.2]
        cases memoMatches ast (entry.1, entry.2) with
        | true => rfl
        | false => exact ih fun entry' hentry' => hmemo entry' (by simp [hentry'])
    simp only [memoGet]
    split
    · exact .ok (.cons hmemo hparents) trivial
    · rw [hfind]
      exact .ok (.cons hmemo hparents) trivial

theorem evalBinary_renamed {op : BinaryOp} {l l' r r' : EvalM D (Value D)} (hl : Parallel (Renamed ρ N L) l l')
    (hr : Parallel (Renamed ρ N L) r r') : Parallel (Renamed ρ N L) (evalBinary op l r) (evalBinary op l' r') := by
  have hlift : ∀ {α : Type} (x : Except Error α), Parallel (Renamed ρ N L) (liftM x : EvalM D α) (liftM x) :=
    fun x => .lift rfl fun _ _ => trivial
  refine hl.andThen fun a => ?_
  cases op with
  | and =>
    refine (hlift _).andThen fun b => ?_
    cases b with
    | true => exact hr.andThen fun c => (hlift _).andThen fun d => .pure trivial
    | false => exact .pure trivial
  | or =>
    refine (hlift _).andThen fun b => ?_
    cases b with
    | true => exact .pure trivial
    | false => exact hr.andThen fun c => (hlift _).andThen fun d => .pure trivial
  | _ => exact hr.andThen fun c => hlift _

theorem arrayIndex_renamed {values : List (Value D)} {index index' : EvalM D (Value D)}
    (h : Parallel (Renamed ρ N L) index index') :
    Parallel (Renamed ρ N L) (arrayIndex values index) (arrayIndex values index') := by
  refine h.andThen fun v => ?_
  cases Ir.constantIndex (some v) with
  | none => exact .throw _ _
  | some i =>
    dsimp only
    cases values[i]? with
    | none => exact .throw _ _
    | some v => exact .pure trivial

section
variable {F F' : Ast D → EvalM D (Value D)} {args : List (Ast D)}

omit [Double D] in
theorem evalAll_renamed (h : ∀ a ∈ args, Parallel (Renamed ρ N L) (F a) (F' a)) :
    Parallel (Renamed ρ N L) (evalAll (args.map F)) (evalAll (args.map F')) := by
  induction args with
  | nil => exact .pure trivial
  | cons a args ih =>
    exact (h a (by simp)).andThen fun v => (ih fun a' ha' => h a' (by simp [ha'])).andThen fun vs => .pure trivial

omit [Double D] in
theorem evalRecordFields_renamed (names : List String) (h : ∀ a ∈ args, Parallel (Renamed ρ N L) (F a) (F' a)) :
    Parallel (Renamed ρ N L) (evalRecordFields (names.zip (args.map F))) (evalRecordFields (names.zip (args.map F'))) := by
  induction args generalizing names with
  | nil =>
    cases names <;> exact .pure trivial
  | cons a args ih =>
    cases names with
    | nil => exact .pure trivial
    | cons name names =>
      refine (h a (by simp)).andThen fun v => ?_
      refine Parallel.andThen ?_ fun _ => (ih names fun a' ha' => h a' (by simp [ha'])).andThen fun rest => .pure trivial
      intro c c' hc
      exact .ok (hc.update (fun f => setValue_evalMemo f name v) fun f memo => setValue_memo f memo name v) trivial

omit [Double D] in
theorem evalReturnFields_renamed {fields : List (String × Ast D)}
    (h : ∀ p ∈ fields, Parallel (Renamed ρ N L) (F p.2) (F' p.2)) :
    Parallel (Renamed ρ N L) (evalReturnFields F fields) (evalReturnFields F' fields) := by
  induction fields with
  | nil => exact .pure trivial
  | cons p fields ih =>
    exact (h p (by simp)).andThen fun v => (ih fun p' hp' => h p' (by simp [hp'])).andThen fun rest => .pure trivial

def Fresh (tmp : Frame D) : Prop := tmp.evalMemo = []

variable {tmp : Frame D}

theorem bindOverlayArg_renamed (htmp : Fresh tmp) (pname : String) {a : Ast D}
    (h : Parallel (Renamed ρ N L) (F a) (F' a)) :
    Parallel (Renamed ρ N L) (bindOverlayArg pname a (F a) tmp) (bindOverlayArg pname (a.mapCalls ρ) (F' a) tmp) Fresh := by
  have hbound : ∀ v, Fresh (bindArg tmp pname v) := fun v => (bindArg_evalMemo tmp pname v).trans htmp
  have hvalue : Parallel (Renamed ρ N L) (do return bindArg tmp pname (← F a)) (do return bindArg tmp pname (← F' a))
      Fresh := h.andThen fun v => .pure (hbound v)
  cases a with
  | identifier name =>
    refine Parallel.read fun c c' hc => ?_
    rw [hc.structOrCached, hc.get, hc.copyPrefixedScalars]
    cases structOrCached c name with
    | some s => exact .pure htmp
    | none =>
      cases c.get name with
      | some d => exact .pure htmp
      | none =>
        have hcopied := copyPrefixedScalars_evalMemo name pname tmp c
        generalize copyPrefixedScalars tmp name pname c = copied at hcopied ⊢
        obtain ⟨frame, found⟩ := copied
        cases found with
        | true => exact .pure (hcopied.trans htmp)
        | false => exact hvalue
  | _ => exact hvalue

theorem bindOverlayArgs_renamed (names : List String) (h : ∀ a ∈ args, Parallel (Renamed ρ N L) (F a) (F' a)) (htmp : Fresh tmp) :
    Parallel (Renamed ρ N L) (bindOverlayArgs (names.zip (args.map fun a => (a, F a))) tmp)
      (bindOverlayArgs (names.zip (args.map fun a => (a.mapCalls ρ, F' a))) tmp) Fresh := by
  induction args generalizing names tmp with
  | nil => cases names <;> exact .pure htmp
  | cons a args ih =>
    cases names with
    | nil => exact .pure htmp
    | cons name names =>
      exact (bindOverlayArg_renamed htmp name (h a (by simp))).bind fun tmp htmp =>
        ih names (fun a' ha' => h a' (by simp [ha'])) htmp

theorem bindStructArg_renamed (htmp : Fresh tmp) (pname : String) (fields : List String) {a : Ast D}
    (h : Parallel (Renamed ρ N L) (F a) (F' a)) :
    Parallel (Renamed ρ N L) (bindStructArg pname fields a (F a) tmp) (bindStructArg pname fields (a.mapCalls ρ) (F' a) tmp)
      Fresh := by
  have hfields : ∀ (name : Option String) (struct : Option (List (String × Value D))),
      Parallel (Renamed ρ N L)
        (get >>= fun c => liftM (bindFields pname (structArgField c name struct) fields tmp) : EvalM D (Frame D))
        (get >>= fun c => liftM (bindFields pname (structArgField c name struct) fields tmp)) Fresh := by
    intro name struct
    refine Parallel.read fun c c' hc => ?_
    rw [hc.structArgField]
    exact .lift rfl fun frame hframe => (bindFields_evalMemo hframe).trans htmp
  unfold bindStructArg
  split
  · exact h.andThen fun v => .pure ((bindArg_evalMemo tmp pname v).trans htmp)
  · cases a with
    | identifier name => exact hfields (some name) none
    | _ =>
      refine h.andThen fun v => ?_
      cases v with
      | struct s => exact hfields none (some s)
      | _ => exact fun _ _ _ => .error _ _

theorem bindStructArgs_renamed (names : List String) (fields : List (List String))
    (h : ∀ a ∈ args, Parallel (Renamed ρ N L) (F a) (F' a)) (htmp : Fresh tmp) :
    Parallel (Renamed ρ N L) (bindStructArgs (names.zip (fields.zip (args.map fun a => (a, F a)))) tmp)
      (bindStructArgs (names.zip (fields.zip (args.map fun a => (a.mapCalls ρ, F' a)))) tmp) Fresh := by
  induction args generalizing names fields tmp with
  | nil =>
    cases names <;> cases fields <;> exact .pure htmp
  | cons a args ih =>
    cases names with
    | nil => exact .pure htmp
    | cons name names =>
      cases fields with
      | nil => exact .pure htmp
      | cons field fields =>
        exact (bindStructArg_renamed htmp name field (h a (by simp))).bind fun tmp htmp =>
          ih names fields (fun a' ha' => h a' (by simp [ha'])) htmp

end
end

end Eval
end Cxpr
