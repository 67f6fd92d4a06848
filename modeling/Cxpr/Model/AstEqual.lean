import Cxpr.Eval.Tree
import Mathlib.Data.Rat.Floor

/-! `cxpr_model_ast_equal` (`src/model/ast_equal.c`) and what sharing the computation of equal expressions relies on. -/

namespace Cxpr.AstEqual
open Eval (argNamesEqual)
variable {D : Type} [Double D]

section
variable (tiny : D)

/-- The comparison of two numbers; `tiny` is the `1e-12`. -/
def near (x y : D) : Bool := Double.lt (Double.fabs (Double.sub x y)) tiny

mutual

/-- `cxpr_model_ast_equal` on two distinct nodes, which share no node below. There is no case for arrays. -/
def astEqual : Ast D → Ast D → Bool
  | .number x, .number y => near tiny x y
  | .int64 x, .int64 y => x == y
  | .bool x, .bool y => x == y
  | .string x, .string y => x == y
  | .identifier x, .identifier y => x == y
  | .param x, .param y => x == y
  | .fieldOf b f, .fieldOf b' f' => astEqual b b' && f == f'
  | .fieldAccess o f, .fieldAccess o' f' => o == o' && f == f'
  | .chainAccess path, .chainAccess path' => path == path'
  | .record names values, .record names' values' => names == names' && astEqualList values values'
  | .binary op l r, .binary op' l' r' => op == op' && astEqual l l' && astEqual r r'
  | .unary op a, .unary op' a' => op == op' && astEqual a a'
  | .call name args names, .call name' args' names' =>
    name == name' && Ast.callUsesNamedArgs args.length names == Ast.callUsesNamedArgs args'.length names' &&
      argNamesEqual args.length names names' && astEqualList args args'
  | .producerAccess name args names f, .producerAccess name' args' names' f' =>
    name == name' && f == f' &&
      Ast.callUsesNamedArgs args.length names == Ast.callUsesNamedArgs args'.length names' &&
      argNamesEqual args.length names names' && astEqualList args args'
  | .index t i, .index t' i' => astEqual t t' && astEqual i i'
  | .ternary c t f, .ternary c' t' f' => astEqual c c' && astEqual t t' && astEqual f f'
  | _, _ => false

def astEqualList : List (Ast D) → List (Ast D) → Bool
  | [], [] => true
  | a :: as, b :: bs => astEqual a b && astEqualList as bs
  | _, _ => false

end

end

mutual

/-- The numbers of an expression are in a set, and a call has a name or none for each of its arguments: what the
    accessors show of a call without an array of names is an array without names. -/
def Over (L : Set D) : Ast D → Prop
  | .number x => x ∈ L
  | .array es => OverList L es
  | .record _ values => OverList L values
  | .fieldOf b _ => Over L b
  | .producerAccess _ args names _ => names.length = args.length ∧ OverList L args
  | .binary _ l r => Over L l ∧ Over L r
  | .unary _ a => Over L a
  | .call _ args names => names.length = args.length ∧ OverList L args
  | .index t i => Over L t ∧ Over L i
  | .ternary c t f => Over L c ∧ Over L t ∧ Over L f
  | .int64 _ | .bool _ | .string _ | .identifier _ | .param _ | .fieldAccess _ _ | .chainAccess _ => True

def OverList (L : Set D) : List (Ast D) → Prop
  | [] => True
  | a :: as => Over L a ∧ OverList L as

end

structure Expression (L : Set D) where
  tree : Ast D
  shown : Over L tree

variable {L : Set D} {tiny : D}

/-- `cxpr_model_ast_equal` on the expressions at two addresses. -/
def modelAstEqual (tiny : D) (heap : Nat → Expression L) (left right : Nat) : Bool :=
  left == right || astEqual tiny (heap left).tree (heap right).tree

def Apart (tiny : D) (L : Set D) : Prop := ∀ x ∈ L, ∀ y ∈ L, near tiny x y = true → x = y

omit [Double D] in
theorem eq_of_argNamesEqual {n : Nat} {ns ns' : List (Option String)} (hn : ns.length = n) (hn' : ns'.length = n)
    (h : argNamesEqual n ns ns' = true) : ns = ns' := by
  have hjoin : ∀ i < n, ns[i]?.join = ns'[i]?.join := by
    simpa [argNamesEqual] using h
  apply List.ext_getElem (hn.trans hn'.symm)
  intro i hi hi'
  have hname := hjoin i (hn ▸ hi)
  rwa [List.getElem?_eq_getElem hi, List.getElem?_eq_getElem hi', Option.join_some, Option.join_some] at hname

mutual

theorem eq_of_astEqual (hL : Apart tiny L) : ∀ {a b : Ast D}, Over L a → Over L b → astEqual tiny a b = true → a = b
  | .number x, b, ha, hb, h => by
    cases b with
    | number y => rw [hL x ha y hb h]
    | _ => simp [astEqual] at h
  | .array es, b, ha, hb, h => by cases b <;> simp [astEqual] at h
  | .record names values, b, ha, hb, h => by
    cases b with
    | record names' values' =>
      simp only [astEqual, Bool.and_eq_true, beq_iff_eq] at h
      obtain ⟨rfl, hvalues⟩ := h
      rw [eq_of_astEqualList hL ha hb hvalues]
    | _ => simp [astEqual] at h
  | .fieldOf base f, b, ha, hb, h => by
    cases b with
    | fieldOf base' f' =>
      simp only [astEqual, Bool.and_eq_true, beq_iff_eq] at h
      obtain ⟨hbase, rfl⟩ := h
      rw [eq_of_astEqual hL (a := base) (b := base') ha hb hbase]
    | _ => simp [astEqual] at h
  | .producerAccess name args names f, b, ha, hb, h => by
    cases b with
    | producerAccess name' args' names' f' =>
      simp only [astEqual, Bool.and_eq_true, beq_iff_eq] at h
      obtain ⟨⟨⟨⟨rfl, rfl⟩, -⟩, hnames⟩, hargs⟩ := h
      obtain rfl := eq_of_astEqualList hL ha.2 hb.2 hargs
      rw [eq_of_argNamesEqual ha.1 hb.1 hnames]
    | _ => simp [astEqual] at h
  | .binary op l r, b, ha, hb, h => by
    cases b with
    | binary op' l' r' =>
      simp only [astEqual, Bool.and_eq_true, beq_iff_eq] at h
      obtain ⟨⟨rfl, hl⟩, hr⟩ := h
      rw [eq_of_astEqual hL ha.1 hb.1 hl, eq_of_astEqual hL ha.2 hb.2 hr]
    | _ => simp [astEqual] at h
  | .unary op a, b, ha, hb, h => by
    cases b with
    | unary op' a' =>
      simp only [astEqual, Bool.and_eq_true, beq_iff_eq] at h
      obtain ⟨rfl, hoperand⟩ := h
      rw [eq_of_astEqual hL (a := a) (b := a') ha hb hoperand]
    | _ => simp [astEqual] at h
  | .call name args names, b, ha, hb, h => by
    cases b with
    | call name' args' names' =>
      simp only [astEqual, Bool.and_eq_true, beq_iff_eq] at h
      obtain ⟨⟨⟨rfl, -⟩, hnames⟩, hargs⟩ := h
      obtain rfl := eq_of_astEqualList hL ha.2 hb.2 hargs
      rw [eq_of_argNamesEqual ha.1 hb.1 hnames]
    | _ => simp [astEqual] at h
  | .index t i, b, ha, hb, h => by
    cases b with
    | index t' i' =>
      simp only [astEqual, Bool.and_eq_true] at h
      rw [eq_of_astEqual hL ha.1 hb.1 h.1, eq_of_astEqual hL ha.2 hb.2 h.2]
    | _ => simp [astEqual] at h
  | .ternary c t f, b, ha, hb, h => by
    cases b with
    | ternary c' t' f' =>
      simp only [astEqual, Bool.and_eq_true] at h
      rw [eq_of_astEqual hL ha.1 hb.1 h.1.1, eq_of_astEqual hL ha.2.1 hb.2.1 h.1.2,
        eq_of_astEqual hL ha.2.2 hb.2.2 h.2]
    | _ => simp [astEqual] at h
  | .int64 _, b, _, _, h | .bool _, b, _, _, h | .string _, b, _, _, h | .identifier _, b, _, _, h
  | .param _, b, _, _, h | .chainAccess _, b, _, _, h => by
    cases b <;> simp_all [astEqual]
  | .fieldAccess _ _, b, _, _, h => by
    cases b <;> simp_all [astEqual]

theorem eq_of_astEqualList (hL : Apart tiny L) : ∀ {as bs : List (Ast D)}, OverList L as → OverList L bs →
    astEqualList tiny as bs = true → as = bs
  | [], [], _, _, _ => rfl
  | [], _ :: _, _, _, h | _ :: _, [], _, _, h => by simp [astEqualList] at h
  | a :: as, b :: bs, ha, hb, h => by
    simp only [astEqualList, Bool.and_eq_true] at h
    rw [eq_of_astEqual hL ha.1 hb.1 h.1, eq_of_astEqualList hL ha.2 hb.2 h.2]

end

/-- The comparison is an equivalence, and equal expressions run alike: they have the same value or the same error, and
    leave the same context, whatever the functions are and the context was. -/
structure Sound (tiny : D) (L : Set D) : Prop where
  equivalence : ∀ heap : Nat → Expression L, Equivalence fun i j => modelAstEqual tiny heap i j = true
  meaning : ∀ (heap : Nat → Expression L) (i j : Nat), modelAstEqual tiny heap i j = true →
    ∀ (reg : Registry D) (depth : Nat) (ctx : Context D),
      Eval.evalAst reg depth (heap i).tree ctx = Eval.evalAst reg depth (heap j).tree ctx

section
variable {heap : Nat → Expression L} {i j k : Nat}

theorem modelAstEqual_iff : modelAstEqual tiny heap i j = true ↔ i = j ∨ astEqual tiny (heap i).tree (heap j).tree = true := by
  rw [modelAstEqual, Bool.or_eq_true, beq_iff_eq]

theorem tree_eq (hL : Apart tiny L) (h : modelAstEqual tiny heap i j = true) : (heap i).tree = (heap j).tree := by
  rcases modelAstEqual_iff.mp h with rfl | h
  · rfl
  · exact eq_of_astEqual hL (heap i).shown (heap j).shown h

theorem modelAstEqual_symm (hL : Apart tiny L) (h : modelAstEqual tiny heap i j = true) :
    modelAstEqual tiny heap j i = true := by
  have htree := tree_eq hL h
  rw [modelAstEqual_iff] at h ⊢
  rw [htree] at h ⊢
  exact h.imp Eq.symm id

theorem modelAstEqual_trans (hL : Apart tiny L) (hij : modelAstEqual tiny heap i j = true)
    (hjk : modelAstEqual tiny heap j k = true) : modelAstEqual tiny heap i k = true := by
  have htree := tree_eq hL hij
  rcases modelAstEqual_iff.mp hjk with rfl | h
  · exact hij
  · rw [modelAstEqual_iff, htree]
    exact .inr h

end

theorem sound_of_apart (hL : Apart tiny L) : Sound tiny L where
  equivalence heap := ⟨fun _ => modelAstEqual_iff.mpr (.inl rfl), modelAstEqual_symm hL, modelAstEqual_trans hL⟩
  meaning heap i j h reg depth ctx := by rw [tree_eq hL h]

def numbers {x y : D} (hx : x ∈ L) (hy : y ∈ L) : Nat → Expression L
  | 0 => ⟨.number x, hx⟩
  | _ + 1 => ⟨.number y, hy⟩

theorem evalAst_number (x : D) : Eval.evalAst {} 1 (.number x) [] = .ok (.number x, []) := rfl

theorem Sound.apart (h : Sound tiny L) : Apart tiny L := by
  intro x hx y hy hnear
  have hrun := h.meaning (numbers hx hy) 0 1 (modelAstEqual_iff.mpr (.inr hnear)) {} 1 []
  rw [numbers, numbers, evalAst_number, evalAst_number] at hrun
  cases hrun
  rfl

/-- The comparison is sound exactly for expressions whose numbers are not near each other. -/
theorem sound_iff : Sound tiny L ↔ Apart tiny L := ⟨Sound.apart, sound_of_apart⟩

/-- The rationals, as doubles without rounding. -/
instance : Double ℚ where
  zero := 0
  one := 1
  add := (· + ·)
  sub := (· - ·)
  mul := (· * ·)
  div := (· / ·)
  fmod a b := a - b * (a / b).floor
  pow a b := a ^ b.floor.toNat
  neg a := -a
  eq a b := a == b
  lt a b := decide (a < b)
  le a b := decide (a ≤ b)
  isfinite _ := true
  floor a := a.floor
  ceil a := a.ceil
  round a := (a + 1 / 2).floor
  sqrt a := Int.sqrt a.floor
  fabs a := |a|
  half := 1 / 2
  tolerance := 1 / 10 ^ 9
  isnan _ := false
  isinf _ := false
  hex a := toString a
  formatG _ a := toString a
  strtod s := s.toInt?.map (↑)
  bits a := UInt64.ofInt a.num
  ofNat n := n
  ofInt64 i := i.toInt
  llround a := Int64.ofInt (a + 1 / 2).floor
  signbit a := decide (a < 0)
  toSize a := a.floor.toNat
  eq_zero_zero := rfl
  eq_one_one := rfl
  eq_one_zero := rfl
  eq_zero_one := rfl
  eq_of_signbit a b h _ := by simpa using h
  isnan_eq a := by simp
  eq_symm a b h := by
    obtain rfl : a = b := by simpa using h
    simp
  eq_trans a b c hab hbc := by
    obtain rfl : a = b := by simpa using hab
    exact hbc
  eq_congr a b h := by
    obtain rfl : a = b := by simpa using h
    simp

/-- `0` and `1e-13` are compared as equal; and `0`, `6e-13` and `12e-13` are, each with the next, but not the first with
    the last. -/
theorem not_sound : ¬Sound (1 / 10 ^ 12 : ℚ) Set.univ ∧
    (astEqual (1 / 10 ^ 12 : ℚ) (.number 0) (.number (6 / 10 ^ 13)) = true ∧
      astEqual (1 / 10 ^ 12 : ℚ) (.number (6 / 10 ^ 13)) (.number (12 / 10 ^ 13)) = true ∧
      astEqual (1 / 10 ^ 12 : ℚ) (.number 0) (.number (12 / 10 ^ 13)) = false) := by
  have hnear : ∀ x y : ℚ, near (1 / 10 ^ 12) x y = decide (|x - y| < 1 / 10 ^ 12) := fun _ _ => rfl
  refine ⟨fun h => ?_, ?_, ?_, ?_⟩
  · have heq := h.apart 0 (Set.mem_univ _) (1 / 10 ^ 13) (Set.mem_univ _) (by
      rw [hnear, decide_eq_true_eq, abs_lt]
      norm_num)
    norm_num at heq
  · rw [astEqual, hnear, decide_eq_true_eq, abs_lt]
    norm_num
  · rw [astEqual, hnear, decide_eq_true_eq, abs_lt]
    norm_num
  · rw [astEqual, hnear, decide_eq_false_iff_not, abs_lt]
    norm_num

end Cxpr.AstEqual
