import Mathlib.Data.Set.Operations
import Cxpr.Eval.Tree
import Cxpr.Lib.Parallel

/-! Function names are only looked up. A registry that has the functions of another under new names, their bodies renamed
    as well, evaluates a renamed expression to the same value, and fails where the other fails. -/

namespace Cxpr
open Stateful
variable {D : Type}

namespace Ast
variable (ρ : String → String)

mutual

def mapCalls : Ast D → Ast D
  | .call name args argNames => .call (ρ name) (mapCallsList args) argNames
  | .producerAccess name args argNames field => .producerAccess (ρ name) (mapCallsList args) argNames field
  | .array es => .array (mapCallsList es)
  | .record names values => .record names (mapCallsList values)
  | .fieldOf base field => .fieldOf (mapCalls base) field
  | .binary op l r => .binary op (mapCalls l) (mapCalls r)
  | .unary op a => .unary op (mapCalls a)
  | .index t i => .index (mapCalls t) (mapCalls i)
  | .ternary c t e => .ternary (mapCalls c) (mapCalls t) (mapCalls e)
  | .number v => .number v
  | .int64 v => .int64 v
  | .bool v => .bool v
  | .string v => .string v
  | .identifier name => .identifier name
  | .param name => .param name
  | .fieldAccess object field => .fieldAccess object field
  | .chainAccess path => .chainAccess path

def mapCallsList : List (Ast D) → List (Ast D)
  | [] => []
  | a :: as => mapCalls a :: mapCallsList as

end

theorem mapCallsList_eq_map (as : List (Ast D)) : mapCallsList ρ as = as.map (mapCalls ρ) := by
  induction as with
  | nil => rfl
  | cons a as ih => rw [mapCallsList, ih, List.map_cons]

theorem length_mapCallsList (as : List (Ast D)) : (mapCallsList ρ as).length = as.length := by
  rw [mapCallsList_eq_map, List.length_map]

variable (N : Set String) (L : Set D)

mutual

/-- The function names are in `N` and the numbers in `L`. -/
def Within : Ast D → Prop
  | .call name args _ => name ∈ N ∧ WithinList args
  | .producerAccess name args _ _ => name ∈ N ∧ WithinList args
  | .number v => v ∈ L
  | .array es => WithinList es
  | .record _ values => WithinList values
  | .fieldOf base _ => Within base
  | .binary _ l r => Within l ∧ Within r
  | .unary _ a => Within a
  | .index t i => Within t ∧ Within i
  | .ternary c t e => Within c ∧ Within t ∧ Within e
  | .int64 _ | .bool _ | .string _ | .identifier _ | .param _ | .fieldAccess _ _ | .chainAccess _ => True

def WithinList : List (Ast D) → Prop
  | [] => True
  | a :: as => Within a ∧ WithinList as

end

variable {N L}

theorem withinList_iff {as : List (Ast D)} : WithinList N L as ↔ ∀ a ∈ as, Within N L a := by
  induction as with
  | nil => simp [WithinList]
  | cons a as ih => simp [WithinList, ih]

mutual

theorem Within.mapCalls : ∀ {a : Ast D}, Within N L a → Within Set.univ L (mapCalls ρ a)
  | .call _ _ _, h | .producerAccess _ _ _ _, h => ⟨trivial, WithinList.mapCalls h.2⟩
  | .number _, h => h
  | .array _, h | .record _ _, h => WithinList.mapCalls h
  | .fieldOf base _, h => Within.mapCalls (a := base) h
  | .binary _ _ _, h | .index _ _, h => ⟨Within.mapCalls h.1, Within.mapCalls h.2⟩
  | .unary _ a, h => Within.mapCalls (a := a) h
  | .ternary _ _ _, h => ⟨Within.mapCalls h.1, Within.mapCalls h.2.1, Within.mapCalls h.2.2⟩
  | .int64 _, h | .bool _, h | .string _, h | .identifier _, h | .param _, h | .fieldAccess _ _, h | .chainAccess _, h => h

theorem WithinList.mapCalls : ∀ {as : List (Ast D)}, WithinList N L as → WithinList Set.univ L (mapCallsList ρ as)
  | [], _ => trivial
  | _ :: _, h => ⟨Within.mapCalls h.1, WithinList.mapCalls h.2⟩

end

end Ast

namespace Eval
variable {ρ : String → String} {N : Set String} {L : Set D}

theorem definedArgForName_map {entry entry' : FuncEntry D} (hnames : entry'.definedParamNames = entry.definedParamNames)
    (args : List (Ast D)) (name : String) (f : Ast D → Ast D) :
    definedArgForName entry' (args.map f) name = (definedArgForName entry args name).map f := by
  unfold definedArgForName
  rw [hnames]
  cases entry.definedParamNames.findIdx? (· == name) with
  | none => rfl
  | some i => exact List.getElem?_map

theorem definedArgForName_mem {entry : FuncEntry D} {args : List (Ast D)} {name : String} {a : Ast D}
    (h : definedArgForName entry args name = some a) : a ∈ args := by
  unfold definedArgForName at h
  obtain ⟨i, -, hi⟩ := Option.bind_eq_some_iff.mp h
  exact List.mem_of_getElem? hi

theorem mapCalls_chainWithReplacedRoot (path : List String) (root : Ast D) :
    (chainWithReplacedRoot path root).mapCalls ρ = chainWithReplacedRoot path (root.mapCalls ρ) := by
  rcases path with _ | ⟨first, _ | ⟨field, _ | ⟨next, rest⟩⟩⟩ <;> cases root <;> rfl

mutual

theorem mapCalls_substitute {entry entry' : FuncEntry D} (hnames : entry'.definedParamNames = entry.definedParamNames)
    (args : List (Ast D)) : ∀ body : Ast D, (substituteDefinedArgs entry args body).mapCalls ρ =
      substituteDefinedArgs entry' (args.map (Ast.mapCalls ρ)) (body.mapCalls ρ)
  | .identifier name => by
    rw [Ast.mapCalls, substituteDefinedArgs, substituteDefinedArgs, definedArgForName_map hnames]
    cases definedArgForName entry args name <;> rfl
  | .fieldAccess object field => by
    rw [Ast.mapCalls, substituteDefinedArgs, substituteDefinedArgs, definedArgForName_map hnames]
    cases definedArgForName entry args object with
    | none => rfl
    | some a => cases a <;> rfl
  | .chainAccess path => by
    rw [Ast.mapCalls, substituteDefinedArgs, substituteDefinedArgs]
    cases path with
    | nil => rfl
    | cons root rest =>
      simp only [List.head?_cons, Option.bind_some, definedArgForName_map hnames]
      cases definedArgForName entry args root with
      | none => rfl
      | some a => exact mapCalls_chainWithReplacedRoot (root :: rest) a
  | .number _ | .int64 _ | .bool _ | .string _ | .param _ => rfl
  | .fieldOf base field => by
    simp only [Ast.mapCalls, substituteDefinedArgs, mapCalls_substitute hnames args base]
  | .array es => by simp only [Ast.mapCalls, substituteDefinedArgs, mapCalls_substituteAll hnames args es]
  | .record names values => by simp only [Ast.mapCalls, substituteDefinedArgs, mapCalls_substituteAll hnames args values]
  | .unary op a => by simp only [Ast.mapCalls, substituteDefinedArgs, mapCalls_substitute hnames args a]
  | .binary op l r => by
    simp only [Ast.mapCalls, substituteDefinedArgs, mapCalls_substitute hnames args l, mapCalls_substitute hnames args r]
  | .call name as argNames => by simp only [Ast.mapCalls, substituteDefinedArgs, mapCalls_substituteAll hnames args as]
  | .producerAccess name as argNames field => by
    simp only [Ast.mapCalls, substituteDefinedArgs, mapCalls_substituteAll hnames args as]
  | .index t i => by
    simp only [Ast.mapCalls, substituteDefinedArgs, mapCalls_substitute hnames args t, mapCalls_substitute hnames args i]
  | .ternary c t e => by
    simp only [Ast.mapCalls, substituteDefinedArgs, mapCalls_substitute hnames args c, mapCalls_substitute hnames args t,
      mapCalls_substitute hnames args e]

theorem mapCalls_substituteAll {entry entry' : FuncEntry D} (hnames : entry'.definedParamNames = entry.definedParamNames)
    (args : List (Ast D)) : ∀ as : List (Ast D), Ast.mapCallsList ρ (substituteAll entry args as) =
      substituteAll entry' (args.map (Ast.mapCalls ρ)) (Ast.mapCallsList ρ as)
  | [] => rfl
  | a :: as => by
    simp only [Ast.mapCallsList, substituteAll, mapCalls_substitute hnames args a, mapCalls_substituteAll hnames args as]

end

theorem within_chainWithReplacedRoot {path : List String} {root : Ast D} (h : root.Within N L) :
    (chainWithReplacedRoot path root).Within N L := by
  rcases path with _ | ⟨first, _ | ⟨field, _ | ⟨next, rest⟩⟩⟩ <;> cases root <;> first | exact h | trivial

mutual

theorem within_substitute {entry : FuncEntry D} {args : List (Ast D)} (hargs : ∀ a ∈ args, a.Within N L) :
    ∀ {b : Ast D}, b.Within N L → (substituteDefinedArgs entry args b).Within N L
  | .identifier name, _ => by
    rw [substituteDefinedArgs]
    cases harg : definedArgForName entry args name with
    | none => trivial
    | some a => exact hargs a (definedArgForName_mem harg)
  | .fieldAccess object field, _ => by
    rw [substituteDefinedArgs]
    cases harg : definedArgForName entry args object with
    | none => trivial
    | some a =>
      have ha := hargs a (definedArgForName_mem harg)
      cases a <;> exact ha
  | .chainAccess path, _ => by
    rw [substituteDefinedArgs]
    cases harg : path.head?.bind (definedArgForName entry args) with
    | none => trivial
    | some a =>
      obtain ⟨root, -, hroot⟩ := Option.bind_eq_some_iff.mp harg
      exact within_chainWithReplacedRoot (hargs a (definedArgForName_mem hroot))
  | .number _, h | .int64 _, h | .bool _, h | .string _, h | .param _, h => h
  | .fieldOf base _, h => within_substitute hargs (b := base) h
  | .array _, h | .record _ _, h => within_substituteAll hargs h
  | .unary _ a, h => within_substitute hargs (b := a) h
  | .binary _ _ _, h | .index _ _, h => ⟨within_substitute hargs h.1, within_substitute hargs h.2⟩
  | .call _ _ _, h | .producerAccess _ _ _ _, h => ⟨h.1, within_substituteAll hargs h.2⟩
  | .ternary _ _ _, h => ⟨within_substitute hargs h.1, within_substitute hargs h.2.1, within_substitute hargs h.2.2⟩

theorem within_substituteAll {entry : FuncEntry D} {args : List (Ast D)} (hargs : ∀ a ∈ args, a.Within N L) :
    ∀ {as : List (Ast D)}, Ast.WithinList N L as → Ast.WithinList N L (substituteAll entry args as)
  | [], _ => trivial
  | _ :: _, h => ⟨within_substitute hargs h.1, within_substituteAll hargs h.2⟩

end

section
variable [Double D]

omit [Double D] in
theorem beq_name (hρ : Set.InjOn ρ N) {n m : String} (hn : n ∈ N) (hm : m ∈ N) : (ρ n == ρ m) = (n == m) := by
  rw [Bool.eq_iff_iff, beq_iff_eq, beq_iff_eq]
  exact ⟨hρ hn hm, congrArg ρ⟩

mutual

theorem astEqual_mapCalls (hρ : Set.InjOn ρ N) : ∀ {a b : Ast D}, a.Within N L → b.Within N L →
    astEqual (a.mapCalls ρ) (b.mapCalls ρ) = astEqual a b
  | .call n as ns, b, ha, hb => by
    cases b with
    | call n' as' ns' =>
      simp only [Ast.mapCalls, astEqual, beq_name hρ ha.1 hb.1, astEqualList_mapCalls hρ ha.2 hb.2, Ast.length_mapCallsList]
    | _ => rfl
  | .producerAccess n as ns f, b, ha, hb => by
    cases b with
    | producerAccess n' as' ns' f' =>
      simp only [Ast.mapCalls, astEqual, beq_name hρ ha.1 hb.1, astEqualList_mapCalls hρ ha.2 hb.2, Ast.length_mapCallsList]
    | _ => rfl
  | .array es, b, ha, hb => by
    cases b with
    | array es' => exact astEqualList_mapCalls hρ ha hb
    | _ => rfl
  | .record ns vs, b, ha, hb => by
    cases b with
    | record ns' vs' => simp only [Ast.mapCalls, astEqual, astEqualList_mapCalls hρ ha hb]
    | _ => rfl
  | .fieldOf base f, b, ha, hb => by
    cases b with
    | fieldOf base' f' => simp only [Ast.mapCalls, astEqual, astEqual_mapCalls hρ (a := base) (b := base') ha hb]
    | _ => rfl
  | .binary op l r, b, ha, hb => by
    cases b with
    | binary op' l' r' => simp only [Ast.mapCalls, astEqual, astEqual_mapCalls hρ ha.1 hb.1, astEqual_mapCalls hρ ha.2 hb.2]
    | _ => rfl
  | .unary op a, b, ha, hb => by
    cases b with
    | unary op' a' => simp only [Ast.mapCalls, astEqual, astEqual_mapCalls hρ (a := a) (b := a') ha hb]
    | _ => rfl
  | .index t i, b, ha, hb => by
    cases b with
    | index t' i' => simp only [Ast.mapCalls, astEqual, astEqual_mapCalls hρ ha.1 hb.1, astEqual_mapCalls hρ ha.2 hb.2]
    | _ => rfl
  | .ternary c t e, b, ha, hb => by
    cases b with
    | ternary c' t' e' =>
      simp only [Ast.mapCalls, astEqual, astEqual_mapCalls hρ ha.1 hb.1, astEqual_mapCalls hρ ha.2.1 hb.2.1,
        astEqual_mapCalls hρ ha.2.2 hb.2.2]
    | _ => rfl
  | .number _, b, _, _ | .int64 _, b, _, _ | .bool _, b, _, _ | .string _, b, _, _ | .identifier _, b, _, _
  | .param _, b, _, _ | .fieldAccess _ _, b, _, _ | .chainAccess _, b, _, _ => by cases b <;> rfl

theorem astEqualList_mapCalls (hρ : Set.InjOn ρ N) : ∀ {as bs : List (Ast D)}, Ast.WithinList N L as → Ast.WithinList N L bs →
    astEqualList (Ast.mapCallsList ρ as) (Ast.mapCallsList ρ bs) = astEqualList as bs
  | [], [], _, _ | [], _ :: _, _, _ | _ :: _, [], _, _ => rfl
  | _ :: _, _ :: _, ha, hb => by
    simp only [Ast.mapCallsList, astEqualList, astEqual_mapCalls hρ ha.1 hb.1, astEqualList_mapCalls hρ ha.2 hb.2]

end

end

/-- Numbers that are told apart by their bits only when they differ, such as the literals of a source text, which are
    never a negative zero. -/
def Literals [Double D] (L : Set D) : Prop := ∀ x ∈ L, ∀ y ∈ L, Double.eq x y = true → Double.bits x = Double.bits y

theorem hashArgs_congr {as : List UInt64} {ns ns' : List (Option String)} (h : argNamesEqual as.length ns ns' = true)
    (hash : UInt64) : hashArgs hash as ns = hashArgs hash as ns' := by
  have hname : ∀ i < as.length, ns[i]?.join = ns'[i]?.join := by
    simpa [argNamesEqual] using h
  refine congrArg (hashMix · (UInt64.ofNat as.length)) ?_
  refine List.foldl_ext _ _ _ fun hash p hp => ?_
  dsimp only
  rw [hname p.2 (List.snd_lt_of_mem_zipIdx hp)]

section
variable [Double D]

theorem length_astHashList (as : List (Ast D)) : (astHashList as).length = as.length := by
  induction as with
  | nil => rfl
  | cons a as ih => rw [astHashList, List.length_cons, ih, List.length_cons]

theorem length_of_astHashList {as bs : List (Ast D)} (h : astHashList as = astHashList bs) : as.length = bs.length := by
  rw [← length_astHashList as, h, length_astHashList]

mutual

theorem astHash_of_astEqual (hL : Literals L) : ∀ {a b : Ast D}, a.Within N L → b.Within N L → astEqual a b = true → astHash a = astHash b
  | .call n as ns, b, ha, hb, h => by
    cases b with
    | call n' as' ns' =>
      simp only [astEqual, Bool.and_eq_true, beq_iff_eq] at h
      have hargs := astHashList_of_astEqualList hL ha.2 hb.2 h.2
      have hnames := h.1.2
      rw [← length_astHashList as] at hnames
      rw [astHash, astHash, hashArgs_congr hnames, h.1.1, hargs]
    | _ => cases h
  | .producerAccess n as ns f, b, ha, hb, h => by
    cases b with
    | producerAccess n' as' ns' f' =>
      simp only [astEqual, Bool.and_eq_true, beq_iff_eq] at h
      have hargs := astHashList_of_astEqualList hL ha.2 hb.2 h.2
      have hnames := h.1.2
      rw [← length_astHashList as] at hnames
      rw [astHash, astHash, hashArgs_congr hnames, h.1.1.1, h.1.1.2, hargs]
    | _ => cases h
  | .array es, b, ha, hb, h => by
    cases b with
    | array es' =>
      have hes := astHashList_of_astEqualList hL ha hb h
      rw [astHash, astHash, hes, length_of_astHashList hes]
    | _ => cases h
  | .record ns vs, b, ha, hb, h => by
    cases b with
    | record ns' vs' =>
      simp only [astEqual, Bool.and_eq_true, beq_iff_eq] at h
      obtain ⟨rfl, hvs⟩ := h
      have hhash := astHashList_of_astEqualList hL ha hb hvs
      rw [astHash, astHash, hhash, length_of_astHashList hhash]
    | _ => cases h
  | .fieldOf base f, b, ha, hb, h => by
    cases b with
    | fieldOf base' f' =>
      simp only [astEqual, Bool.and_eq_true, beq_iff_eq] at h
      rw [astHash, astHash, astHash_of_astEqual hL (a := base) (b := base') ha hb h.1, h.2]
    | _ => cases h
  | .binary op l r, b, ha, hb, h => by
    cases b with
    | binary op' l' r' =>
      simp only [astEqual, Bool.and_eq_true, beq_iff_eq] at h
      rw [astHash, astHash, astHash_of_astEqual hL ha.1 hb.1 h.1.2, astHash_of_astEqual hL ha.2 hb.2 h.2, h.1.1]
    | _ => cases h
  | .unary op a, b, ha, hb, h => by
    cases b with
    | unary op' a' =>
      simp only [astEqual, Bool.and_eq_true, beq_iff_eq] at h
      rw [astHash, astHash, astHash_of_astEqual hL (a := a) (b := a') ha hb h.2, h.1]
    | _ => cases h
  | .index t i, b, ha, hb, h => by
    cases b with
    | index t' i' =>
      simp only [astEqual, Bool.and_eq_true] at h
      rw [astHash, astHash, astHash_of_astEqual hL ha.1 hb.1 h.1, astHash_of_astEqual hL ha.2 hb.2 h.2]
    | _ => cases h
  | .ternary c t e, b, ha, hb, h => by
    cases b with
    | ternary c' t' e' =>
      simp only [astEqual, Bool.and_eq_true] at h
      rw [astHash, astHash, astHash_of_astEqual hL ha.1 hb.1 h.1.1, astHash_of_astEqual hL ha.2.1 hb.2.1 h.1.2,
        astHash_of_astEqual hL ha.2.2 hb.2.2 h.2]
    | _ => cases h
  | .number v, b, ha, hb, h => by
    cases b with
    | number w => rw [astHash, astHash, hL v ha w hb h]
    | _ => cases h
  | .int64 v, b, _, _, h => by
    cases b with
    | int64 w => rw [beq_iff_eq.mp h]
    | _ => cases h
  | .bool v, b, _, _, h => by
    cases b with
    | bool w => rw [beq_iff_eq.mp h]
    | _ => cases h
  | .string v, b, _, _, h => by
    cases b with
    | string w => rw [beq_iff_eq.mp h]
    | _ => cases h
  | .identifier v, b, _, _, h => by
    cases b with
    | identifier w => rw [beq_iff_eq.mp h]
    | _ => cases h
  | .param v, b, _, _, h => by
    cases b with
    | param w => rw [beq_iff_eq.mp h]
    | _ => cases h
  | .fieldAccess o f, b, _, _, h => by
    cases b with
    | fieldAccess o' f' =>
      simp only [astEqual, Bool.and_eq_true, beq_iff_eq] at h
      rw [h.1, h.2]
    | _ => cases h
  | .chainAccess p, b, _, _, h => by
    cases b with
    | chainAccess p' => rw [beq_iff_eq.mp h]
    | _ => cases h

theorem astHashList_of_astEqualList (hL : Literals L) : ∀ {as bs : List (Ast D)}, Ast.WithinList N L as → Ast.WithinList N L bs →
    astEqualList as bs = true → astHashList as = astHashList bs
  | [], [], _, _, _ => rfl
  | [], _ :: _, _, _, h | _ :: _, [], _, _, h => by cases h
  | _ :: _, _ :: _, ha, hb, h => by
    simp only [astEqualList, Bool.and_eq_true] at h
    rw [astHashList, astHashList, astHash_of_astEqual hL ha.1 hb.1 h.1, astHashList_of_astEqualList hL ha.2 hb.2 h.2]

end

theorem memoMatches_eq (hL : Literals L) {a b : Ast D} (ha : a.Within N L) (hb : b.Within N L) (v : Value D) :
    memoMatches b (a, v) = astEqual a b := by
  unfold memoMatches
  cases h : astEqual a b with
  | false => rw [Bool.and_false]
  | true => rw [astHash_of_astEqual hL ha hb h, beq_self_eq_true, Bool.true_and]

theorem memoMatches_mapCalls (hL : Literals L) (hρ : Set.InjOn ρ N) {a b : Ast D} (ha : a.Within N L) (hb : b.Within N L)
    (v : Value D) : memoMatches (b.mapCalls ρ) (a.mapCalls ρ, v) = memoMatches b (a, v) := by
  rw [memoMatches_eq hL ha hb, memoMatches_eq hL (ha.mapCalls ρ) (hb.mapCalls ρ), astEqual_mapCalls hρ ha hb]

end

end Eval
end Cxpr
