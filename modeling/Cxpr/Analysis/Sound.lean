import Cxpr.Analysis.Walk
import Cxpr.Typing.Sound

/-! What the facts of an analysis promise about evaluations. -/

namespace Cxpr.Analyze
open Eval
variable {D : Type}

section
variable {α β : Type}

def Fixed (act : EvalM D α) : Prop := ∃ r, ∀ ctx, (act ctx).map Prod.fst = r

theorem Fixed.pure (a : α) : Fixed (Pure.pure a : EvalM D α) := ⟨.ok a, fun _ => rfl⟩

theorem Fixed.lift (x : Except Error α) : Fixed (liftM x : EvalM D α) := by
  cases x with
  | error e => exact ⟨.error e, fun _ => rfl⟩
  | ok a => exact ⟨.ok a, fun _ => rfl⟩

theorem Fixed.bind {act : EvalM D α} {k : α → EvalM D β} (h : Fixed act) (hk : ∀ a, Fixed (k a)) : Fixed (act >>= k) := by
  obtain ⟨r, hr⟩ := h
  choose r' hr' using hk
  refine ⟨r >>= r', fun ctx => ?_⟩
  show (act ctx >>= fun p => k p.1 p.2).map Prod.fst = r >>= r'
  rw [← hr ctx]
  cases act ctx with
  | error e => rfl
  | ok p => exact hr' p.1 p.2

theorem fixed_inOverlay {tmp : Frame D} {act : EvalM D α} (h : Fixed act) : Fixed (inOverlay tmp act) := by
  obtain ⟨r, hr⟩ := h
  refine ⟨r, fun ctx => ?_⟩
  rw [← hr (tmp :: ctx)]
  unfold inOverlay
  cases act (tmp :: ctx) <;> rfl

theorem fixed_evalRecordFields {names : List String} {acts : List (EvalM D (Value D))} (h : ∀ act ∈ acts, Fixed act) :
    Fixed (evalRecordFields (names.zip acts)) := by
  induction acts generalizing names with
  | nil =>
    rw [List.zip_nil_right]
    exact .pure _
  | cons act acts ih =>
    cases names with
    | nil => exact .pure _
    | cons name names =>
      refine (h act List.mem_cons_self).bind fun v => .bind ⟨.ok (), fun _ => rfl⟩ fun _ => ?_
      exact (ih fun a ha => h a (List.mem_cons_of_mem _ ha)).bind fun fields => .pure _

theorem fixed_evalAll {acts : List (EvalM D (Value D))} (h : ∀ act ∈ acts, Fixed act) : Fixed (evalAll acts) := by
  induction acts with
  | nil => exact .pure _
  | cons act acts ih =>
    refine (h act List.mem_cons_self).bind fun v => ?_
    exact (ih fun a ha => h a (List.mem_cons_of_mem _ ha)).bind fun vs => .pure _

end

variable [Double D] {reg : Registry D} {deeper : Ast D → EvalM D (Value D)}

theorem fixed_evalBinary {op : BinaryOp} {left right : EvalM D (Value D)} (hl : Fixed left) (hr : Fixed right) :
    Fixed (evalBinary op left right) := by
  refine hl.bind fun l => ?_
  have hlogical : ∀ b : Bool, Fixed (do
      return .bool (← requireBool (← right) "Logical operators require bool") : EvalM D (Value D)) := fun _ =>
    hr.bind fun r => (Fixed.lift _).bind fun b => .pure _
  split
  · refine (Fixed.lift _).bind fun b => ?_
    cases b with
    | true => exact hlogical true
    | false => exact .pure _
  · refine (Fixed.lift _).bind fun b => ?_
    cases b with
    | true => exact .pure _
    | false => exact hlogical true
  · exact hr.bind fun r => .lift _

mutual

theorem fixed_evalNode : ∀ ast : Ast D, isConstant ast = true → Fixed (evalNode reg deeper ast)
  | .number _, _ | .int64 _, _ | .bool _, _ | .string _, _ => by
    rw [evalNode]
    exact .pure _
  | .array es, h => by
    rw [evalNode]
    exact (fixed_evalAll (fixed_evalActs es h)).bind fun vs => .pure _
  | .record names values, h => by
    rw [evalNode]
    exact (fixed_inOverlay (fixed_evalRecordFields (fixed_evalActs values h))).bind fun fields => .pure _
  | .binary op l r, h => by
    obtain ⟨hl, hr⟩ := Bool.and_eq_true_iff.mp h
    rw [evalNode]
    exact fixed_evalBinary (fixed_evalNode l hl) (fixed_evalNode r hr)
  | .unary op a, h => by
    rw [evalNode]
    exact (fixed_evalNode a h).bind fun v => .lift _
  | .ternary c t e, h => by
    obtain ⟨hct, he⟩ := Bool.and_eq_true_iff.mp h
    obtain ⟨hc, ht⟩ := Bool.and_eq_true_iff.mp hct
    rw [evalNode]
    refine (fixed_evalNode c hc).bind fun v => (Fixed.lift _).bind fun b => ?_
    cases b with
    | true => exact fixed_evalNode t ht
    | false => exact fixed_evalNode e he

theorem fixed_evalActs : ∀ asts : List (Ast D), areConstant asts = true →
    ∀ act ∈ evalActs reg deeper asts, Fixed act
  | [], _, act, hact => nomatch hact
  | ast :: asts, h, act, hact => by
    obtain ⟨hast, hasts⟩ := Bool.and_eq_true_iff.mp h
    rcases List.mem_cons.mp hact with rfl | hact
    · exact fixed_evalNode ast hast
    · exact fixed_evalActs asts hasts act hact

end

theorem fixed_evalAst {ast : Ast D} (h : isConstant ast = true) (depth : Nat) : Fixed (evalAst reg depth ast) := by
  have hnode : Fixed (evalDepth reg depth ast) := by
    cases depth with
    | zero => exact ⟨.error _, fun _ => rfl⟩
    | succ depth => exact fixed_evalNode ast h
  obtain ⟨r, hr⟩ := hnode
  cases hcheck : typecheck ast reg with
  | error e =>
    refine ⟨.error e, fun ctx => ?_⟩
    unfold evalAst
    rw [hcheck]
    rfl
  | ok type =>
    refine ⟨r, fun ctx => ?_⟩
    rw [← hr (memoEnter ctx)]
    unfold evalAst evalAstValue
    rw [hcheck]
    show ((evalDepth reg depth ast (memoEnter ctx)) >>= fun p => .ok (p.1, memoLeave p.2)).map Prod.fst = _
    cases evalDepth reg depth ast (memoEnter ctx) <;> rfl

def ExprType.Of : ExprType → Value D → Prop
  | .unknown, _ => True
  | .bool, v => v.type = .bool
  | .number, v => v.type = .number
  | .struct, v => v.type = .struct

def isReported : ValueType → Bool
  | .bool | .number | .struct => true
  | _ => false

/-- The reported type of the node is no default: a number is reported for every name, parameter and int64 literal, for
    arithmetic whatever its operands are and for every declared type but bool and struct, and a call of `resample` is
    taken to have the type of its source. -/
def settled (reg : Registry D) : Ast D → Bool
  | .number _ | .bool _ => true
  | .binary op l r =>
    match op with
    | .plus | .minus | .star | .slash =>
      settled reg l && settled reg r && reported (some reg) l = .number && reported (some reg) r = .number
    | _ => true
  | .unary op a => op = .not || settled reg a
  | .call name args _ =>
    name != "resample" && !(name == "if" && args.length == 3) &&
      ((reg.find name).bind (·.returnType)).any isReported
  | .ternary _ t e => settled reg t && settled reg e
  | _ => false

open Typecheck Stateful

variable {v : Value D}

omit [Double D] in
theorem ExprType.of_type {type : ExprType} {w : Value D} (h : type.Of v) (hw : v.type = w.type) : type.Of w := by
  cases type with
  | unknown => trivial
  | bool | number | struct => exact hw.symm.trans h

omit [Double D] in
theorem ExprType.of_ofValue {t : ValueType} (ht : isReported t = true) (hv : v.type = t) :
    (ExprType.ofValue t).Of v := by
  cases t with
  | bool | number | struct => exact hv
  | _ => cases ht

omit [Double D] in
theorem of_binary {op : BinaryOp} {lt rt : Certainty}
    (hv : ∀ t, certainBinary op lt rt = .sure t → v.type = t)
    (harith : op = .plus ∨ op = .minus ∨ op = .star ∨ op = .slash → lt = .sure .number ∧ rt = .sure .number) :
    (binaryType op).Of v := by
  cases op with
  | plus | minus | star | slash =>
    obtain ⟨rfl, rfl⟩ := harith (by simp)
    exact hv .number rfl
  | percent | power => exact hv .number rfl
  | _ => exact hv .bool rfl

theorem certainCall_declared {name : String} {args : List (Ast D)} (argNames : List (Option String)) {t : ValueType}
    (h : (reg.find name).bind (·.returnType) = some t) (hif : name = "if" → args.length ≠ 3) :
    certainCall reg name argNames (certainList reg args) = .sure t := by
  unfold certainCall
  split
  · rename_i c t e hname hargs
    refine (hif (by simpa using hname) ?_).elim
    rw [← length_certainList args, hargs]
    rfl
  · rw [declared, h]
    rfl

theorem yields_reported (hreg : Faithful reg) (hdeeper : ∀ ast, Keeps reg (deeper ast)) :
    ∀ ast, settled reg ast = true → Yields (MemoFits reg) (evalNode reg deeper ast) (reported (some reg) ast).Of
  | .number _, _ => by
    rw [evalNode]
    exact .pure rfl
  | .bool _, _ => by
    rw [evalNode]
    exact .pure rfl
  | .binary op l r, h => by
    rw [evalNode]
    have hany : ∀ ast, Yields (MemoFits reg) (evalNode reg deeper ast) fun v => ∀ t, Certainty.untyped = .sure t → v.type = t :=
      fun ast => (fits_evalNode hreg hdeeper ast).mono fun v _ t ht => nomatch ht
    have hnumber : ∀ {ast}, Yields (MemoFits reg) (evalNode reg deeper ast) (reported (some reg) ast).Of →
        reported (some reg) ast = .number → Yields (MemoFits reg) (evalNode reg deeper ast) fun v =>
          ∀ t, Certainty.sure .number = .sure t → v.type = t := by
      intro ast hast htype
      rw [htype] at hast
      refine hast.mono fun v hv t ht => ?_
      cases ht
      exact hv
    have hother : ¬(op = .plus ∨ op = .minus ∨ op = .star ∨ op = .slash) →
        Yields (MemoFits reg) (evalBinary op (evalNode reg deeper l) (evalNode reg deeper r)) (binaryType op).Of :=
      fun hop => (yields_evalBinary (hany l) (hany r)).mono fun v hv => of_binary hv fun harith => (hop harith).elim
    cases op with
    | plus | minus | star | slash =>
      simp only [settled, Bool.and_eq_true, decide_eq_true_eq] at h
      obtain ⟨⟨⟨hl, hr⟩, hlt⟩, hrt⟩ := h
      exact (yields_evalBinary (hnumber (yields_reported hreg hdeeper l hl) hlt)
        (hnumber (yields_reported hreg hdeeper r hr) hrt)).mono fun v hv => of_binary hv fun _ => ⟨rfl, rfl⟩
    | _ => exact hother (by simp)
  | .unary op a, h => by
    rw [evalNode]
    cases op with
    | not =>
      refine (fits_evalNode hreg hdeeper a).bind fun v _ => Yields.lift fun w hw => ?_
      exact (unaryValue_type hw).2 rfl
    | minus =>
      refine (yields_reported hreg hdeeper a (by simpa [settled] using h)).bind fun v hv => Yields.lift fun w hw => ?_
      exact ExprType.of_type hv ((unaryValue_type hw).1 rfl)
  | .call name args argNames, h => by
    simp only [settled, Bool.and_eq_true, bne_iff_ne, Bool.not_eq_true', Bool.and_eq_false_iff, beq_eq_false_iff_ne] at h
    obtain ⟨⟨hname, hif⟩, hany⟩ := h
    cases htype : (reg.find name).bind (·.returnType) with
    | none =>
      rw [htype] at hany
      cases hany
    | some t =>
      rw [htype] at hany
      have hreported : reported (some reg) (.call name args argNames) = ExprType.ofValue t := by
        rw [reported, if_neg hname, Option.bind_some, htype]
        rfl
      rw [hreported]
      have hsure := certainCall_declared argNames htype fun hname => hif.resolve_left fun hne => hne hname
      exact (fits_evalNode hreg hdeeper (.call name args argNames)).mono fun v hv =>
        ExprType.of_ofValue hany (hv.type hsure)
  | .ternary c t e, h => by
    obtain ⟨ht, he⟩ := Bool.and_eq_true_iff.mp h
    rw [evalNode]
    refine yields_evalTernary (keeps_of_yields (fits_evalNode hreg hdeeper c)) ?_ ?_
    · refine (yields_reported hreg hdeeper t ht).mono fun v hv => ?_
      rw [reported]
      split
      · exact hv
      · trivial
    · refine (yields_reported hreg hdeeper e he).mono fun v hv => ?_
      rw [reported]
      split
      · rename_i heq
        rw [heq]
        exact hv
      · trivial

section
open ValuedDouble IndexGuards

theorem round53_of_le {n : Nat} (h : n ≤ uintMax) : round53 n = n := by
  have hlog : n.log2 - 52 = 0 := by
    rcases Nat.eq_zero_or_pos n with rfl | hpos
    · rfl
    · have hlt : n.log2 < 32 := (Nat.log2_lt (by omega)).mpr (by unfold uintMax at h; omega)
      omega
  simp [round53, hlog]

theorem le_coarse {a b : Coarse} {p q : ℚ} (hp : value a = some p) (hq : value b = some q) :
    Double.le a b = true ↔ p ≤ q := by
  rw [← value_coarse.mp hp, ← value_coarse.mp hq, Int.cast_le]
  show decide (a.toInt ≤ b.toInt) = true ↔ a.toInt ≤ b.toInt
  exact decide_eq_true_iff

instance : OffsetDouble Coarse where
  le_iff := le_coarse
  value_ofNat n h := by
    rw [value_coarse]
    show (((round53 n : Nat) : Int) : ℚ) = n
    rw [round53_of_le h]
    rfl

end

/-- `0 < 1`. -/
def zeroBelowOne : Ast IndexGuards.Coarse := .binary .lt (.number (0 : Int)) (.number (1 : Int))

/-- `close[2][3]`. -/
def closeFiveBack : Ast IndexGuards.Coarse :=
  .index (.index (.identifier "close") (.number (2 : Int))) (.number (3 : Int))

theorem faithful_empty {D : Type} [Double D] : Faithful ({} : Registry D) where
  declares _ _ _ hfind := nomatch hfind
  resolves _ _ hselect := nomatch hselect
  selects _ _ _ := rfl

end Cxpr.Analyze
