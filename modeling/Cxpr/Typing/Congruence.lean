import Cxpr.Eval.Scalar
import Cxpr.Typing.Certain

/-! Nodes that the memo takes for equal are of the same certain type, although numbers in them may differ in the sign of
    a zero. -/

namespace Cxpr.Typecheck
open Eval
variable {D : Type} [Double D]

structure Alike (reg : Registry D) (a b : Ast D) : Prop where
  identifier : isIdentifier a = isIdentifier b
  index : isIndex a = isIndex b
  select : reg.selectIndexCapability a = reg.selectIndexCapability b
  unserved : unserved reg a = unserved reg b
  element : ∀ ks : List Known, literalElement ks a = literalElement ks b
  certain : certain reg a = certain reg b

theorem literalElement_congr {α : Type} (ks : List α) {a b : D} (h : Double.eq a b = true) :
    literalElement ks (.number a) = literalElement ks (.number b) := by
  obtain ⟨hfinite, hsize, hfloor, horder⟩ := Double.eq_congr a b h
  simp only [literalElement, hfinite, hsize, Double.ne, hfloor, Double.ge, (horder _).1, (horder _).2]
  rfl

variable {reg : Registry D}

def unselected (r : Except Error (Option (IndexCapability D))) : Bool :=
  match r with
  | .ok none => true
  | _ => false

theorem alike_of {a b : Ast D} (hselect : reg.selectIndexCapability a = reg.selectIndexCapability b)
    (hidentifier : isIdentifier a = isIdentifier b) (ha : isIndex a = false) (hb : isIndex b = false)
    (hea : ∀ ks : List Known, literalElement ks a = none) (heb : ∀ ks : List Known, literalElement ks b = none)
    (hcertain : certain reg a = certain reg b) : Alike reg a b where
  identifier := hidentifier
  index := ha.trans hb.symm
  select := hselect
  unserved := by
    have hplain : ∀ {c : Ast D}, isIndex c = false → unserved reg c = unselected (reg.selectIndexCapability c) := by
      intro c hc
      cases c <;> first | rfl | cases hc
    rw [hplain ha, hplain hb, hselect]
  element ks := (hea ks).trans (heb ks).symm
  certain := hcertain

theorem certainIndex_congr {t i t' i' : Ast D} (ht : Alike reg t t') (hi : Alike reg i i') :
    certainIndex reg t i (certain reg t) = certainIndex reg t' i' (certain reg t') := by
  simp only [certainIndex, certainSelected, ht.certain, ht.select, ht.identifier, ht.index, ht.unserved, hi.element]

omit [Double D] in
theorem certainCall_congr (name : String) {ns ns' : List (Option String)} {ks : List Known}
    (h : argNamesEqual ks.length ns ns' = true) : certainCall reg name ns ks = certainCall reg name ns' ks := by
  unfold certainCall
  split
  · have hnamed : Ast.callUsesNamedArgs 3 ns = Ast.callUsesNamedArgs 3 ns' := callUsesNamedArgs_congr h
    rw [hnamed]
  · rfl

theorem length_certainList (es : List (Ast D)) : (certainList reg es).length = es.length := by
  induction es with
  | nil => rfl
  | cons e es ih => simp [certainList, ih]

theorem length_eq_of_astEqualList {es es' : List (Ast D)} (h : astEqualList es es' = true) : es.length = es'.length := by
  induction es generalizing es' with
  | nil => cases es' <;> simp [astEqualList] at h ⊢
  | cons e es ih =>
    cases es' with
    | nil => simp [astEqualList] at h
    | cons e' es' =>
      simp only [astEqualList, Bool.and_eq_true] at h
      simp [ih h.2]

theorem alike_of_astEqual
    (hselect : ∀ a b, astEqual a b = true → reg.selectIndexCapability a = reg.selectIndexCapability b) {a b : Ast D}
    (h : astEqual a b = true) : Alike reg a b := by
  -- most nodes are no index access and no number, and then only their own certain types are left
  have plain : ∀ {a b : Ast D}, astEqual a b = true → isIdentifier a = isIdentifier b → isIndex a = false →
      isIndex b = false → (∀ ks : List Known, literalElement ks a = none) →
      (∀ ks : List Known, literalElement ks b = none) → certain reg a = certain reg b → Alike reg a b :=
    fun h => alike_of (hselect _ _ h)
  refine astEqual.induct_unfolding (fun a b r => astEqual a b = true → r = true → Alike reg a b)
    (fun es es' r => r = true → certainList reg es = certainList reg es')
    ?number ?int64 ?bool ?array ?record ?string ?identifier ?param ?fieldAccess ?fieldOf ?chainAccess ?producerAccess
    ?binary ?unary ?call ?index ?ternary ?differ ?nil ?cons ?differList a b h h
  case number =>
    intro a b h hnum
    exact {
      identifier := rfl
      index := rfl
      select := hselect _ _ h
      unserved := by simp only [unserved, hselect _ _ h]
      element := fun ks => literalElement_congr ks hnum
      certain := rfl }
  case int64 | bool | string | identifier | param | chainAccess =>
    intro _ _ h _
    exact plain h rfl rfl rfl (fun _ => rfl) (fun _ => rfl) rfl
  case fieldAccess =>
    intro _ _ _ _ h _
    exact plain h rfl rfl rfl (fun _ => rfl) (fun _ => rfl) rfl
  case producerAccess =>
    intro _ _ _ _ _ _ _ _ _ h _
    exact plain h rfl rfl rfl (fun _ => rfl) (fun _ => rfl) rfl
  case array =>
    intro _ _ ih h hes
    exact plain h rfl rfl rfl (fun _ => rfl) (fun _ => rfl) (by rw [certain, certain, ih hes])
  case record =>
    intro _ _ _ _ ih h hparts
    simp only [Bool.and_eq_true, beq_iff_eq] at hparts
    exact plain h rfl rfl rfl (fun _ => rfl) (fun _ => rfl) (by rw [certain, certain, ih hparts.2, hparts.1])
  case fieldOf =>
    intro _ _ _ _ ih h hparts
    simp only [Bool.and_eq_true, beq_iff_eq] at hparts
    have hbase := ih hparts.1 hparts.1
    exact plain h rfl rfl rfl (fun _ => rfl) (fun _ => rfl) (by rw [certain, certain, hbase.certain, hparts.2])
  case binary =>
    intro _ _ _ _ _ _ ihl ihr h hparts
    simp only [Bool.and_eq_true, beq_iff_eq] at hparts
    obtain ⟨⟨rfl, hl⟩, hr⟩ := hparts
    exact plain h rfl rfl rfl (fun _ => rfl) (fun _ => rfl)
      (by rw [certain, certain, (ihl hl hl).certain, (ihr hr hr).certain])
  case unary =>
    intro op _ _ _ ih h hparts
    simp only [Bool.and_eq_true, beq_iff_eq] at hparts
    obtain ⟨rfl, ha⟩ := hparts
    exact plain h rfl rfl rfl (fun _ => rfl) (fun _ => rfl) (by rw [certain, certain, (ih ha ha).certain])
  case call =>
    intro name args ns _ args' ns' ih h hparts
    simp only [Bool.and_eq_true, beq_iff_eq] at hparts
    obtain ⟨⟨rfl, hnames⟩, hargs⟩ := hparts
    refine plain h rfl rfl rfl (fun _ => rfl) (fun _ => rfl) ?_
    have hlen : args.length = (certainList reg args').length :=
      (length_eq_of_astEqualList hargs).trans (length_certainList args').symm
    rw [certain, certain, ih hargs, certainCall_congr name (hlen ▸ hnames)]
  case index =>
    intro t i t' i' iht ihi h hparts
    simp only [Bool.and_eq_true] at hparts
    have ht := iht hparts.1 hparts.1
    exact {
      identifier := rfl
      index := rfl
      select := hselect _ _ h
      unserved := by simp only [unserved, hselect _ _ h, ht.unserved]
      element := fun _ => rfl
      certain := certainIndex_congr ht (ihi hparts.2 hparts.2) }
  case ternary =>
    intro _ _ _ _ _ _ _ iht ihe h hparts
    simp only [Bool.and_eq_true] at hparts
    exact plain h rfl rfl rfl (fun _ => rfl) (fun _ => rfl)
      (by rw [certain, certain, (iht hparts.1.2 hparts.1.2).certain, (ihe hparts.2 hparts.2).certain])
  case differ =>
    intros
    contradiction
  case nil => exact fun _ => rfl
  case cons =>
    intro _ _ _ _ ih ihs hparts
    simp only [Bool.and_eq_true] at hparts
    rw [certainList, certainList, (ih hparts.1 hparts.1).certain, ihs hparts.2]
  case differList =>
    intros
    contradiction

end Cxpr.Typecheck
