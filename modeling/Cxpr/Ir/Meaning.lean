import Cxpr.Eval.Scalar
import Cxpr.Ir.Compile

/-! What the code of an expression of the operator fragment computes: the meaning of the expression, but for what the
    compiler decides itself (folded constants, a constant left operand of `and` and `or`, squares). -/

namespace Cxpr.Ir
open Eval
variable {D : Type} [Double D]

/-! ### Compiled meaning -/

omit [Double D] in
def andMeaning : Option (Value D) → Option (Value D) → Option (Value D)
  | some (.bool false), _ => some (.bool false)
  | some (.bool true), some (.bool b) => some (.bool b)
  | _, _ => none

omit [Double D] in
def orMeaning : Option (Value D) → Option (Value D) → Option (Value D)
  | some (.bool true), _ => some (.bool true)
  | some (.bool false), some (.bool b) => some (.bool b)
  | _, _ => none

omit [Double D] in
def condMeaning : Option (Value D) → Option (Value D) → Option (Value D) → Option (Value D)
  | some (.bool b), t, e => if b then t else e
  | _, _, _ => none

def squareMeaning : Value D → Option (Value D)
  | .number d => some (.number (Double.mul d d))
  | _ => none

def foldedMeaning (reg : Registry D) (ast : Ast D) (otherwise : Option (Value D)) : Option (Value D) :=
  match constantTypedValue ast reg with
  | some (.number d) => some (.number d)
  | some (.bool b) => some (.bool b)
  | some (.string s) => some (.string s)
  | _ => otherwise

mutual

/-- The result of the code of an expression of the fragment; `ask` answers for what is left to the tree evaluator. -/
def compiledMeaning (reg : Registry D) (env : Env D) (ask : Ast D → Option (Value D)) : Ast D → Option (Value D)
  | .number v => some (.number v)
  | .bool b => some (.bool b)
  | .identifier name => env.var name
  | .param name => env.param name
  | .unary op a =>
    foldedMeaning reg (.unary op a) ((compiledMeaning reg env ask a).bind fun v => (unaryValue op v).toOption)
  | .binary .and l r =>
    foldedMeaning reg (.binary .and l r) <|
      match constantTypedValue l reg with
      | some (.bool false) => some (.bool false)
      | some (.bool true) => compiledMeaning reg env ask r
      | _ => andMeaning (compiledMeaning reg env ask l) (compiledMeaning reg env ask r)
  | .binary .or l r =>
    foldedMeaning reg (.binary .or l r) <|
      match constantTypedValue l reg with
      | some (.bool true) => some (.bool true)
      | some (.bool false) => compiledMeaning reg env ask r
      | _ => orMeaning (compiledMeaning reg env ask l) (compiledMeaning reg env ask r)
  | .binary op l r =>
    foldedMeaning reg (.binary op l r) <|
      if op == .star && astEqual l r then (compiledMeaning reg env ask l).bind squareMeaning
      else (compiledMeaning reg env ask l).bind fun a =>
        (compiledMeaning reg env ask r).bind fun b => (binaryValues op a b).toOption
  | .ternary c t e =>
    foldedMeaning reg (.ternary c t e) <|
      condMeaning (compiledMeaning reg env ask c) (compiledMeaning reg env ask t) (compiledMeaning reg env ask e)
  | .call name args argNames =>
    foldedMeaning reg (.call name args argNames) <|
      if Ast.callUsesNamedArgs args.length argNames then ask (.call name args argNames)
      else
        match compiledMeanings reg env ask args with
        | [c, t, e] => condMeaning c t e
        | _ => none
  | .array es =>
    foldedMeaning reg (.array es) (((compiledMeanings reg env ask es).mapM id).map .array)
  | .index t i =>
    foldedMeaning reg (.index t i) <|
      if indexHasLiteralArrayBase t then
        (compiledMeaning reg env ask t).bind fun a =>
          (compiledMeaning reg env ask i).bind fun b => (indexMeaning (.ok a) (.ok b)).toOption
      else if (lookbackLiteralOffset i).isSome then none
      else ask (.index t i)
  | .int64 _ | .string _ | .record _ _ | .fieldAccess _ _ | .fieldOf _ _ | .chainAccess _
  | .producerAccess _ _ _ _ => none

def compiledMeanings (reg : Registry D) (env : Env D) (ask : Ast D → Option (Value D)) :
    List (Ast D) → List (Option (Value D))
  | [] => []
  | a :: as => compiledMeaning reg env ask a :: compiledMeanings reg env ask as

end

section
variable {reg : Registry D} {env : Env D} {ask : Ast D → Option (Value D)}

variable {a v : Value D} {op : BinaryOp} {ast : Ast D}

theorem foldUnary_sound {op : UnaryOp} (h : foldUnary op a = some v) : unaryValue op a = .ok v := by
  cases op <;> cases a <;> simp [foldUnary] at h <;> subst h <;> rfl

theorem foldBinary_sound {b : Value D} (h : foldBinary op a b = some v) :
    binaryMeaning op (.ok a) (.ok b) = .ok v := by
  unfold foldBinary at h
  split at h
  case h_4 | h_5 => -- `/` and `%`
    split at h
    · cases h
    · rename_i hzero
      cases h
      exact if_neg hzero
  case h_6 => -- `^`
    split at h
    · cases h
      rfl
    · cases h
  case h_17 x y | h_18 x y => -- `&&` and `||`
    cases h
    cases x <;> rfl
  all_goals cases h <;> rfl

theorem fold_sound (hast : Scalar reg false ast)
    (h : constantTypedValue ast reg = some v) : denote env ast = .ok v := by
  unfold constantTypedValue at h
  induction hast generalizing v with
  | number | bool =>
    cases h
    rfl
  | identifier | param => cases h
  | unary op ha iha =>
    rw [fold] at h
    obtain ⟨a, ha, hop⟩ := Option.bind_eq_some_iff.mp h
    rw [denote, iha ha]
    exact foldUnary_sound hop
  | binary op hl hr ihl ihr =>
    rw [fold] at h
    obtain ⟨a, ha, h⟩ := Option.bind_eq_some_iff.mp h
    obtain ⟨b, hb, hop⟩ := Option.bind_eq_some_iff.mp h
    rw [denote, ihl ha, ihr hb]
    exact foldBinary_sound hop
  | ternary hc ht he ihc iht ihe =>
    rw [fold] at h
    simp only [Folded.scalar, Folded.value] at h
    split at h
    · rename_i b hb
      rw [denote, ihc hb]
      cases b with
      | true => exact iht h
      | false => exact ihe h
    · cases h
  | ifCall hif hc ht he argNames ihc iht ihe =>
    rw [fold] at h
    simp only [Folded.scalar, Folded.value, foldList, List.map_cons, List.map_nil, beq_self_eq_true] at h
    split at h
    · cases h
    · rename_i hnamed
      split at h
      · rename_i b hb
        have hpos : Ast.callUsesNamedArgs 3 argNames = false := by
          simp only [List.length_cons, List.length_nil, Bool.or_eq_true, not_or] at hnamed
          simpa using hnamed.1
        simp only [denote, denoteList, ifMeaning, hpos, ihc hb, beq_self_eq_true, if_true]
        cases b with
        | true => exact iht h
        | false => exact ihe h
      · cases h
  | array hi | index hi => cases hi

theorem foldedMeaning_eq_some {otherwise : Option (Value D)} (hast : Scalar reg false ast)
    (hden : denote env ast = .ok v) (h : otherwise = some v) : foldedMeaning reg ast otherwise = some v := by
  unfold foldedMeaning
  split
  all_goals first
    | exact h
    | (rename_i hconst
       have hfold : denote env ast = _ := fold_sound hast hconst
       rw [hden] at hfold
       cases hfold
       rfl)

omit [Double D] in
theorem argNamesEqual_of_namedArgs {α β : Type} {as : List α} {bs : List β} {ns ns' : List (Option String)}
    (hlen : as.length = bs.length)
    (h : (namedArgs as ns).map (·.1) = (namedArgs bs ns').map (·.1)) : argNamesEqual as.length ns ns' = true := by
  simp only [argNamesEqual, List.all_eq_true, List.mem_range, beq_iff_eq]
  intro i hi
  have hget := congrArg (·[i]?) h
  simpa [namedArgs, List.getElem?_eq_getElem hi, List.getElem?_eq_getElem (hlen ▸ hi)] using hget

theorem astEqual_eval {indexed : Bool} {a b : Ast D} (ha : Scalar reg indexed a) (h : astEqual a b = true) :
    Eval.astEqual a b = true := by
  induction ha generalizing b with
  | number | bool | identifier | param => cases b <;> simp_all [astEqual, Eval.astEqual]
  | unary op ha iha =>
    cases b with
    | unary op' b =>
      simp only [astEqual, Bool.and_eq_true] at h
      simp only [Eval.astEqual, Bool.and_eq_true]
      exact ⟨h.1, iha h.2⟩
    | _ => simp [astEqual] at h
  | binary op hl hr ihl ihr =>
    cases b with
    | binary op' l' r' =>
      simp only [astEqual, Bool.and_eq_true] at h
      simp only [Eval.astEqual, Bool.and_eq_true]
      exact ⟨⟨h.1.1, ihl h.1.2⟩, ihr h.2⟩
    | _ => simp [astEqual] at h
  | ternary hc ht he ihc iht ihe =>
    cases b with
    | ternary c' t' e' =>
      simp only [astEqual, Bool.and_eq_true] at h
      simp only [Eval.astEqual, Bool.and_eq_true]
      exact ⟨⟨ihc h.1.1, iht h.1.2⟩, ihe h.2⟩
    | _ => simp [astEqual] at h
  | ifCall hif hc ht he ns ihc iht ihe =>
    cases b with
    | call name args ns' =>
      simp only [astEqual, Bool.and_eq_true, beq_iff_eq] at h
      obtain ⟨⟨⟨rfl, hlen⟩, hns⟩, hargs⟩ := h
      have hnames := argNamesEqual_of_namedArgs hlen hns
      rcases args with _ | ⟨c', _ | ⟨t', _ | ⟨e', _ | ⟨a, args⟩⟩⟩⟩
      · cases hlen
      · cases hlen
      · cases hlen
      · simp only [astEqualList, Bool.and_eq_true] at hargs
        obtain ⟨h₁, h₂, h₃, -⟩ := hargs
        simp only [Eval.astEqual, Eval.astEqualList, Bool.and_eq_true, beq_self_eq_true]
        exact ⟨⟨trivial, hnames⟩, ihc h₁, iht h₂, ihe h₃, trivial⟩
      · cases hlen
    | _ => simp [astEqual] at h
  | array hi hes => cases b <;> simp [astEqual] at h
  | index hi hreg ht hi' iht ihi =>
    cases b with
    | index t' i' =>
      simp only [astEqual, Bool.and_eq_true] at h
      simp only [Eval.astEqual, Bool.and_eq_true]
      exact ⟨iht h.1, ihi h.2⟩
    | _ => simp [astEqual] at h

theorem toOption_binaryMeaning (hand : op ≠ .and) (hor : op ≠ .or) (x y : Except Error (Value D)) :
    (binaryMeaning op x y).toOption =
      x.toOption.bind fun a => y.toOption.bind fun b => (binaryValues op a b).toOption := by
  cases op <;> first
    | exact absurd rfl hand
    | exact absurd rfl hor
    | skip
  all_goals
    cases x with
    | error => rfl
    | ok a => cases y <;> rfl

omit [Double D] in
theorem toOption_eq_some {α : Type} {x : Except Error α} {a : α} : x.toOption = some a ↔ x = .ok a := by
  cases x <;> simp [Except.toOption]

theorem binaryMeaning_eq_ok (hand : op ≠ .and) (hor : op ≠ .or) {x y : Except Error (Value D)} (h : binaryMeaning op x y = .ok v) : ∃ a b, x = .ok a ∧ y = .ok b ∧ binaryValues op a b = .ok v := by
  rw [← toOption_eq_some, toOption_binaryMeaning hand hor] at h
  obtain ⟨a, ha, h⟩ := Option.bind_eq_some_iff.mp h
  obtain ⟨b, hb, h⟩ := Option.bind_eq_some_iff.mp h
  exact ⟨a, b, toOption_eq_some.mp ha, toOption_eq_some.mp hb, toOption_eq_some.mp h⟩

theorem compiledMeaning_binary (hand : op ≠ .and) (hor : op ≠ .or) {l r : Ast D} :
    compiledMeaning reg env ask (.binary op l r) = foldedMeaning reg (.binary op l r)
      (if op == .star && astEqual l r then (compiledMeaning reg env ask l).bind squareMeaning
      else (compiledMeaning reg env ask l).bind fun a =>
        (compiledMeaning reg env ask r).bind fun b => (binaryValues op a b).toOption) := by
  cases op <;> first
    | exact absurd rfl hand
    | exact absurd rfl hor
    | rfl

theorem squareMeaning_of_binaryValues (ha : a.isScalar = true)
    (h : binaryValues .star a a = .ok v) : squareMeaning a = some v := by
  cases a with
  | number d =>
    cases h
    rfl
  | bool b => cases h
  | _ => cases ha

theorem compiledMeaning_of_denote (henv : env.Scalar) (hast : Scalar reg false ast)
    (h : denote env ast = .ok v) : compiledMeaning reg env ask ast = some v := by
  induction hast generalizing v with
  | number | bool =>
    cases h
    rfl
  | identifier | param =>
    rw [denote] at h
    rw [compiledMeaning]
    split at h <;> cases h
    assumption
  | unary op ha iha =>
    refine foldedMeaning_eq_some (.unary op ha) h ?_
    rw [denote] at h
    obtain ⟨a, ha, h⟩ := bind_eq_ok.mp h
    rw [iha ha, Option.bind_some, h]
    rfl
  | @binary op l r hl hr ihl ihr =>
    have hden := h
    rw [denote] at h
    by_cases hop : op = .and ∨ op = .or
    · obtain ⟨a, b, hx, rfl, hcases⟩ := binaryMeaning_logical hop h
      -- a constant left operand is the one that decides
      have hconst : ∀ c, constantTypedValue l reg = some (.bool c) → c = a := by
        intro c hc
        have hfold : denote env l = .ok (.bool c) := fold_sound hl hc
        rw [hx] at hfold
        cases hfold
        rfl
      have hright : a = decide (op = .and) → compiledMeaning reg env ask r = some (.bool b) := by
        intro ha
        rcases hcases with ⟨-, hy⟩ | ⟨ha', -⟩
        · exact ihr hy
        · rcases hop with rfl | rfl <;> rw [ha] at ha' <;> cases ha'
      have hleft : a = decide (op = .or) → b = a := by
        intro ha
        rcases hcases with ⟨ha', -⟩ | ⟨-, hb⟩
        · rcases hop with rfl | rfl <;> rw [ha] at ha' <;> cases ha'
        · exact hb
      rcases hop with rfl | rfl
      all_goals
        refine foldedMeaning_eq_some (.binary _ hl hr) hden ?_
        split
        · rename_i hc
          obtain rfl := hconst _ hc
          rw [hleft rfl]
        · rename_i hc
          exact hright (hconst _ hc).symm
        · rw [ihl hx]
          cases a with
          | false => first
            | rw [hleft rfl]; rfl
            | rw [hright rfl]; rfl
          | true => first
            | rw [hleft rfl]; rfl
            | rw [hright rfl]; rfl
    · have hand : op ≠ .and := fun h => hop (.inl h)
      have hor : op ≠ .or := fun h => hop (.inr h)
      rw [compiledMeaning_binary hand hor]
      refine foldedMeaning_eq_some (.binary op hl hr) hden ?_
      obtain ⟨a, b, ha, hb, hop⟩ := binaryMeaning_eq_ok hand hor h
      split
      · rename_i hsquare
        simp only [Bool.and_eq_true, beq_iff_eq] at hsquare
        obtain ⟨rfl, heq⟩ := hsquare
        have hsame : denote env l = denote env r := denote_of_astEqual hl hr (astEqual_eval hl heq)
        rw [ha, hb] at hsame
        cases hsame
        rw [ihl ha]
        exact squareMeaning_of_binaryValues (denote_isScalar henv hl ha) hop
      · rw [ihl ha, ihr hb, Option.bind_some, Option.bind_some, hop]
        rfl
  | ternary hc ht he ihc iht ihe =>
    refine foldedMeaning_eq_some (.ternary hc ht he) h ?_
    rw [denote] at h
    obtain ⟨b, hb, h⟩ := ternaryMeaning_eq_ok h
    rw [ihc hb]
    cases b with
    | true => exact iht h
    | false => exact ihe h
  | ifCall hif hc ht he argNames ihc iht ihe =>
    refine foldedMeaning_eq_some (.ifCall hif hc ht he argNames) h ?_
    simp only [denote, denoteList, ifMeaning, beq_self_eq_true, if_true] at h
    split at h
    · cases h
    · rename_i hnamed
      obtain ⟨b, hb, h⟩ := ternaryMeaning_eq_ok h
      rw [if_neg (by exact hnamed)]
      simp only [compiledMeanings]
      rw [ihc hb]
      cases b with
      | true => exact iht h
      | false => exact ihe h
  | array hi | index hi => cases hi

end
end Cxpr.Ir
