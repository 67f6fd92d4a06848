import Cxpr.Eval.Reads
import Cxpr.References
import Mathlib.Data.Finset.Card
import Mathlib.Data.List.Dedup

/-! What the collectors of names report of an expression, and what its evaluation reads and calls. -/

namespace Cxpr.Ast
variable {D : Type}

def firsts (names : List String) : List String := names.foldl addUniqueName []

theorem firsts_append (names : List String) (x : String) : firsts (names ++ [x]) = addUniqueName (firsts names) x := by
  rw [firsts, firsts, List.foldl_append]
  rfl

variable {names : List String}

theorem mem_firsts {x : String} : x ∈ firsts names ↔ x ∈ names := by
  rw [firsts, foldl_addUniqueName_mem]
  simp

theorem nodup_firsts (names : List String) : (firsts names).Nodup := by
  induction names using List.reverseRecOn with
  | nil => exact List.nodup_nil
  | append_singleton names x ih =>
    rw [firsts_append, addUniqueName]
    split
    · exact ih
    · rename_i hnew
      exact List.nodup_append.mpr ⟨ih, List.nodup_singleton x, fun a ha b hb => by
        rw [List.mem_singleton.mp hb]
        exact fun heq => hnew (heq ▸ ha)⟩

theorem collect_append (maxNames : Nat) (names : List String) (x : String) :
    collect maxNames (names ++ [x]) = (collect maxNames names).add maxNames x := by
  rw [collect, collect, List.foldl_append]
  rfl

theorem collect_eq (maxNames : Nat) (names : List String) :
    (collect maxNames names).names = (firsts names).take maxNames ∧
      (collect maxNames names).count =
        ((firsts names).take maxNames).length + (names.filter (· ∉ (firsts names).take maxNames)).length := by
  induction names using List.reverseRecOn with
  | nil => simp [collect, firsts]
  | append_singleton names x ih =>
    obtain ⟨hnames, hcount⟩ := ih
    rw [collect_append, firsts_append, Collected.add, hnames]
    by_cases hstored : x ∈ (firsts names).take maxNames
    · have hfirst : x ∈ firsts names := List.mem_of_mem_take hstored
      rw [if_pos hstored, addUniqueName, if_pos hfirst, List.filter_append]
      exact ⟨hnames, by simpa [hstored] using hcount⟩
    rw [if_neg hstored]
    rcases Nat.lt_or_ge (firsts names).length maxNames with hroom | hfull
    · have hall : (firsts names).take maxNames = firsts names := List.take_of_length_le hroom.le
      rw [hall] at hstored hcount ⊢
      have hnone : names.filter (· ∉ firsts names) = [] := by simp [mem_firsts]
      rw [hnone, List.length_nil, Nat.add_zero] at hcount
      have hkept : (firsts names ++ [x]).take maxNames = firsts names ++ [x] :=
        List.take_of_length_le (by rw [List.length_append]; exact hroom)
      rw [addUniqueName, if_neg hstored, hcount, if_pos hroom, hkept]
      refine ⟨rfl, ?_⟩
      have hnone' : (names ++ [x]).filter (· ∉ firsts names ++ [x]) = [] := by
        simp +contextual [mem_firsts]
      rw [hnone', List.length_append]
      rfl
    · have hlength : ((firsts names).take maxNames).length = maxNames := by rw [List.length_take]; omega
      have hkeep : (addUniqueName (firsts names) x).take maxNames = (firsts names).take maxNames := by
        unfold addUniqueName
        split
        · rfl
        · exact List.take_append_of_le_length hfull
      rw [hkeep, if_neg (by omega), List.filter_append]
      exact ⟨rfl, by simp [hstored, hcount]; omega⟩

theorem mem_collect {maxNames : Nat} (hroom : names.length ≤ maxNames) {x : String} :
    x ∈ (collect maxNames names).names ↔ x ∈ names := by
  have hlength : (firsts names).length ≤ maxNames :=
    ((nodup_firsts names).subperm fun _ h => mem_firsts.mp h).length_le.trans hroom
  rw [(collect_eq maxNames names).1, List.take_of_length_le hlength, mem_firsts]

theorem collect_count_iff (maxNames : Nat) (names : List String) :
    (collect maxNames names).count = names.dedup.length ↔
      ∀ x, x ∉ (firsts names).take maxNames → names.count x ≤ 1 := by
  have hnodup : ((firsts names).take maxNames).Nodup := (nodup_firsts names).sublist (List.take_sublist _ _)
  have hsplit : names.dedup.length = ((firsts names).take maxNames).length +
      (names.filter (· ∉ (firsts names).take maxNames)).dedup.length := by
    rw [← List.card_toFinset, ← List.card_toFinset, ← List.toFinset_card_of_nodup hnodup,
      ← Finset.card_union_of_disjoint]
    · congr 1
      ext x
      simp only [List.mem_toFinset, Finset.mem_union, List.mem_filter, decide_eq_true_eq]
      constructor
      · intro hx
        by_cases hstored : x ∈ (firsts names).take maxNames
        · exact .inl hstored
        · exact .inr ⟨hx, hstored⟩
      · rintro (hx | hx)
        · exact mem_firsts.mp (List.mem_of_mem_take hx)
        · exact hx.1
    · rw [Finset.disjoint_left]
      intro x hx hrest
      simp only [List.mem_toFinset, List.mem_filter, decide_eq_true_eq] at hx hrest
      exact hrest.2 hx
  rw [(collect_eq maxNames names).2, hsplit, Nat.add_left_cancel_iff]
  have hrest : ∀ rest : List String, rest.length = rest.dedup.length ↔ rest.Nodup := fun rest =>
    ⟨fun h => List.dedup_eq_self.mp ((List.dedup_sublist rest).eq_of_length h.symm), fun h => by rw [h.dedup]⟩
  rw [hrest, List.nodup_iff_count_le_one]
  refine forall_congr' fun x => ?_
  by_cases hstored : x ∈ (firsts names).take maxNames
  · rw [List.count_eq_zero_of_not_mem (by simp [hstored])]
    simp [hstored]
  · rw [List.count_filter (by simpa using hstored)]
    simp [hstored]

theorem firsts_pairwise (names : List String) : (firsts names).Pairwise fun a b => names.idxOf a < names.idxOf b := by
  induction names using List.reverseRecOn with
  | nil => exact List.Pairwise.nil
  | append_singleton names x ih =>
    have hkept : (firsts names).Pairwise fun a b => (names ++ [x]).idxOf a < (names ++ [x]).idxOf b :=
      ih.imp_of_mem fun ha hb h => by
        rwa [List.idxOf_append_of_mem (mem_firsts.mp ha), List.idxOf_append_of_mem (mem_firsts.mp hb)]
    rw [firsts_append, addUniqueName]
    split
    · exact hkept
    · rename_i hnew
      refine List.pairwise_append.mpr ⟨hkept, List.pairwise_singleton _ _, fun a ha b hb => ?_⟩
      have hmem := mem_firsts.mp ha
      rw [List.mem_singleton.mp hb, List.idxOf_append_of_mem hmem, List.idxOf_append_of_notMem fun h => hnew (mem_firsts.mpr h)]
      exact Nat.lt_of_lt_of_le (List.idxOf_lt_length_of_mem hmem) (Nat.le_add_right _ _)

/-- A collector stores the names in the order of their first mention, each once, as many as there is room for, and its count
    exceeds the room exactly if a name was left out. -/
theorem collect_exact (maxNames : Nat) (names : List String) :
    (collect maxNames names).names.Pairwise (fun a b => names.idxOf a < names.idxOf b) ∧
      (collect maxNames names).names.length = min maxNames names.dedup.length ∧
      (∀ x ∈ names, x ∈ (collect maxNames names).names ∨ ∀ a ∈ (collect maxNames names).names, names.idxOf a < names.idxOf x) ∧
      ((collect maxNames names).count ≤ maxNames ↔ ∀ x ∈ names, x ∈ (collect maxNames names).names) := by
  obtain ⟨hstored, hcount⟩ := collect_eq maxNames names
  have hpairwise := firsts_pairwise names
  have hlength : (firsts names).length = names.dedup.length := by
    rw [← List.toFinset_card_of_nodup (nodup_firsts names), ← List.card_toFinset]
    congr 1
    ext x
    simp [mem_firsts]
  rw [← hstored] at hcount
  have hroom : (collect maxNames names).names.length = min maxNames names.dedup.length := by
    rw [hstored, List.length_take, hlength]
  have hleft : ∀ x ∈ names, x ∉ (collect maxNames names).names → x ∈ (firsts names).drop maxNames := by
    intro x hx hnot
    rw [← mem_firsts, ← List.take_append_drop maxNames (firsts names), List.mem_append, ← hstored] at hx
    exact hx.resolve_left hnot
  refine ⟨hstored ▸ hpairwise.sublist (List.take_sublist _ _), hroom, fun x hx => ?_, fun h x hx => ?_, fun h => ?_⟩
  · by_cases hmem : x ∈ (collect maxNames names).names
    · exact .inl hmem
    · rw [← List.take_append_drop maxNames (firsts names), ← hstored] at hpairwise
      exact .inr fun a ha => (List.pairwise_append.mp hpairwise).2.2 a ha x (hleft x hx hmem)
  · by_contra hnot
    have hmany : 0 < (names.filter (· ∉ (collect maxNames names).names)).length :=
      List.length_pos_of_mem (List.mem_filter.mpr ⟨hx, by simpa using hnot⟩)
    have hfull := List.length_pos_of_mem (hleft x hx hnot)
    rw [List.length_drop, hlength] at hfull
    omega
  · have hnone : names.filter (· ∉ (collect maxNames names).names) = [] := by simpa using h
    rw [hnone, List.length_nil] at hcount
    omega

def ownNames : Ast D → List String
  | .identifier name => [name]
  | .fieldAccess object field => [fullKey [object, field]]
  | .chainAccess path => [fullKey path]
  | _ => []

def ownParams : Ast D → List String
  | .param name => [name]
  | _ => []

def DottedPrefix (a b : String) : Prop := ∃ rest, b = a ++ "." ++ rest

def upTo (names : List String) : Set String := { x | ∃ r ∈ names, x = r ∨ DottedPrefix x r }

def around (names : List String) : Set String := { x | ∃ r ∈ names, x = r ∨ DottedPrefix x r ∨ DottedPrefix r x }

theorem upTo_subset_around {names' : List String} (h : names ⊆ names') : upTo names ⊆ around names' := by
  rintro x ⟨r, hr, rfl | hprefix⟩
  · exact ⟨x, h hr, .inl rfl⟩
  · exact ⟨r, h hr, .inr (.inl hprefix)⟩

def Rooted (ast : Ast D) : Prop := ∀ path, .chainAccess path ∈ subexprs ast → path.head? ≠ some ""

theorem fullKey_cons_cons (a b : String) (rest : List String) : fullKey (a :: b :: rest) = a ++ "." ++ fullKey (b :: rest) :=
  String.intercalate_cons_cons

end Cxpr.Ast

namespace Cxpr
open Ast Eval
variable {D : Type}

theorem dottedPrefix_of_mem_chainPrefixes {x : String} : ∀ {done : String} {path : List String}, done ≠ "" →
    x ∈ chainPrefixes done path → DottedPrefix x (done ++ "." ++ fullKey path)
  | done, segment :: next :: rest, hdone, hx => by
    have hne : done ++ "." ++ segment ≠ "" := by simp
    rw [chainPrefixes_cons, if_neg (by simpa using hdone)] at hx
    rw [fullKey_cons_cons]
    rcases List.mem_cons.mp hx with rfl | hx
    · exact ⟨fullKey (next :: rest), by simp [String.append_assoc]⟩
    · obtain ⟨tail, htail⟩ := dottedPrefix_of_mem_chainPrefixes hne hx
      exact ⟨tail, by rw [← htail]; simp [String.append_assoc]⟩

theorem within_chain (P : Set String) {names : List String} {path : List String} (hroot : path.head? ≠ some "")
    (hname : fullKey path ∈ names) : Within (D := D) (upTo names) P (.chainAccess path) := by
  cases path with
  | nil => exact ⟨⟨_, hname, .inl rfl⟩, by simp, by simp [chainPrefixes]⟩
  | cons first rest =>
    cases rest with
    | nil =>
      have hfirst : first ∈ upTo names := ⟨_, hname, .inl String.intercalate_singleton.symm⟩
      exact ⟨⟨_, hname, .inl rfl⟩, by simpa using hfirst, by simp [chainPrefixes]⟩
    | cons next rest =>
      have hne : first ≠ "" := fun heq => hroot (by rw [heq]; rfl)
      have hwhole : fullKey (first :: next :: rest) = first ++ "." ++ fullKey (next :: rest) := fullKey_cons_cons first next rest
      have hfirst : first ∈ upTo names := ⟨_, hname, .inr ⟨_, hwhole⟩⟩
      refine ⟨⟨_, hname, .inl rfl⟩, by simpa using hfirst, fun x hx => ?_⟩
      rw [chainPrefixes_cons, if_pos (by simp)] at hx
      rcases List.mem_cons.mp hx with rfl | hx
      · exact hfirst
      · refine ⟨_, hname, .inr ?_⟩
        rw [hwhole]
        exact dottedPrefix_of_mem_chainPrefixes hne hx

variable [Double D]

/-- What the collectors are to report of an expression: with arrays that have room, all that its evaluation reads and calls;
    with arrays of `maxNames` names, how many different names there are. -/
structure Complete (reg : Registry D) (depth maxNames : Nat) (ast : Ast D) : Prop where
  reads : ∀ room, (mentions ast).length ≤ room → (usedParams ast).length ≤ room → ∀ c c' : Context D,
    SameReads (around (collect room (mentions ast)).names) { p | p ∈ (collect room (usedParams ast)).names } c c' →
      (evalAst reg depth ast c).map Prod.fst = (evalAst reg depth ast c').map Prod.fst
  calls : ∀ room, (called ast).length ≤ room → ∀ x ∈ subexprs ast, ∀ name ∈ ownCalls reg x,
    name ∈ (collect room (called ast)).names
  counts : ∀ names ∈ [mentions ast, called ast, usedParams ast], (collect maxNames names).count = names.dedup.length

/-- What is read anywhere in the expression is mentioned where the collectors look, under no key of a result that is kept of
    a function of `N`, which has all that the expression calls. -/
structure ReadsSeen (reg : Registry D) (N : Set String) (ast : Ast D) : Prop where
  names : ∀ x ∈ subexprs ast, ∀ name ∈ ownNames x, name ∈ mentions ast
  params : ∀ x ∈ subexprs ast, ∀ name ∈ ownParams x, name ∈ usedParams ast
  calls : ∀ x ∈ subexprs ast, ∀ name ∈ ownCalls reg x, name ∈ N
  unkept : Unkept reg N (upTo (mentions ast))
  rooted : Rooted ast

/-- What is called anywhere in the expression is called where the collector looks. -/
def CallsSeen (reg : Registry D) (ast : Ast D) : Prop := ∀ x ∈ subexprs ast, ∀ name ∈ ownCalls reg x, name ∈ called ast

/-- No name for which an array of `maxNames` names has no room comes twice. -/
def CountsOnce (maxNames : Nat) (ast : Ast D) : Prop :=
  ∀ names ∈ [mentions ast, called ast, usedParams ast], ∀ x, x ∉ (firsts names).take maxNames → names.count x ≤ 1

variable {reg : Registry D} {N : Set String} {ast : Ast D} {depth maxNames : Nat}

theorem ReadsSeen.within (h : ReadsSeen reg N ast) {P : Set String} (hP : ∀ p ∈ usedParams ast, p ∈ P) :
    ∀ x ∈ subexprs ast, Within (upTo (mentions ast)) P x := by
  intro x hx
  cases x with
  | identifier name => exact ⟨name, h.names _ hx name (by simp [ownNames]), .inl rfl⟩
  | param name => exact hP _ (h.params _ hx name (by simp [ownParams]))
  | fieldAccess object field =>
    have hname := h.names _ hx (fullKey [object, field]) (by simp [ownNames])
    refine ⟨⟨_, hname, .inl rfl⟩, ⟨_, hname, .inr ⟨field, ?_⟩⟩⟩
    rw [fullKey_cons_cons]
    exact congrArg _ String.intercalate_singleton
  | chainAccess path => exact within_chain P (h.rooted path hx) (h.names _ hx _ (by simp [ownNames]))
  | _ => trivial

def bandEntry : FuncEntry Int where
  name := "band"
  structProducer := some fun args => args.map .number
  structFields := some ["upper"]
  structArgc := 1
  minArgs := 1
  maxArgs := 1

/-- `band(x).upper + $k`. -/
def bandPlusParam : Ast Int := .binary .plus (.producerAccess "band" [.identifier "x"] [none] "upper") (.param "k")

end Cxpr
