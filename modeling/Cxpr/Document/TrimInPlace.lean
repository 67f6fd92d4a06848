import Cxpr.Document.DeclTypes
import Cxpr.Lib.Bytes

/-! `cxpr_doc_ast_trim_in_place` on the bytes of a string: what it returns, beside the text that
    `cxpr_doc_ast_trim_copy` returns, and which bytes it reads and writes. -/

namespace Cxpr.Document
open Bytes

def nul : Char := '\x00'

def Holds (bytes : Int → Char) (p : Int) (s : Text) : Prop := nul ∉ s ∧ Lies bytes p (s ++ [nul])

/-- The last loop: the end pointer `s + n` goes back over the spaces two bytes before it, and clears what it leaves. -/
def clearBack (s : Int) : Nat → Access Char Nat
  | 0 => pure 0
  | n + 1 => do
    if isSpace (← load (s + n - 1)) then
      store (s + n - 1) nul
      clearBack s n
    else pure (n + 1)

/-- The semicolon at the end of `cxpr_doc_ast_trim_in_place`. -/
def clearSemicolon (s : Int) : Nat → Access Char Nat
  | 0 => pure 0
  | n + 1 => do
    if (← load (s + n)) == ';' then
      store (s + n) nul
      clearBack s (n + 1)
    else pure (n + 1)

/-- `cxpr_doc_ast_trim_in_place`. The end pointer is kept as its distance from `s`. -/
def trimInPlace (fuel : Nat) (s : Int) : Access Char Int := do
  let s ← skipWhile (fun c => c != nul && isSpace c) fuel s
  let stop ← skipWhile (· != nul) fuel s
  let n ← dropBack isSpace s (stop - s).toNat
  store (s + n) nul
  let _ ← clearSemicolon s n
  return s

/-- A text without surrounding spaces and without one closing semicolon and the spaces before it. -/
structure TrimOf (s t : Text) : Prop where
  parts : ∃ lead close trail, s = lead ++ (t ++ (close ++ trail)) ∧ Blank lead ∧ Blank trail ∧
    (close = [] ∧ t.getLast? ≠ some ';' ∨ ∃ gap, close = gap ++ [';'] ∧ Blank gap)
  head : ∀ c ∈ t.head?, isSpace c = false
  last : ∀ c ∈ t.getLast?, isSpace c = false

variable {s : Text}

theorem head_dropWhile : ∀ c ∈ (s.dropWhile isSpace).head?, isSpace c = false := by
  intro c hc
  cases hs : s.dropWhile isSpace with
  | nil => simp [hs] at hc
  | cons d rest =>
    have hd := List.head_dropWhile_not isSpace (l := s) (by simp [hs])
    obtain rfl : d = c := by simpa [hs] using hc
    simpa [hs] using hd

theorem last_rdropWhile : ∀ c ∈ (s.rdropWhile isSpace).getLast?, isSpace c = false := by
  intro c hc
  obtain ⟨hne, rfl⟩ := List.mem_getLast?_eq_getLast hc
  simpa using List.rdropWhile_last_not isSpace s hne

theorem head_rdropWhile (h : ∀ c ∈ s.head?, isSpace c = false) :
    ∀ c ∈ (s.rdropWhile isSpace).head?, isSpace c = false := by
  intro c hc
  obtain ⟨t, ht⟩ := List.rdropWhile_prefix isSpace (l := s)
  apply h
  rw [← ht]
  exact List.mem_head?_append_of_mem_head? hc

structure Core (s lead core trail : Text) : Prop where
  parts : s = lead ++ (core ++ trail)
  before : Blank lead
  after : Blank trail
  head : ∀ c ∈ (core ++ trail).head?, isSpace c = false
  last : ∀ c ∈ core.getLast?, isSpace c = false

theorem exists_core (s : Text) : ∃ lead core trail, Core s lead core trail := by
  obtain ⟨lead, hlead, hs⟩ := of_dropWhile (s := s) rfl
  obtain ⟨trail, htrail, hrest⟩ := of_rdropWhile (s := s.dropWhile isSpace) rfl
  refine ⟨lead, (s.dropWhile isSpace).rdropWhile isSpace, trail, ?_, hlead, htrail, ?_, last_rdropWhile⟩
  · rw [← hrest, ← hs]
  · rw [← hrest]
    exact head_dropWhile

namespace Core
variable {s lead core trail : Text} (h : Core s lead core trail)
include h

theorem head_core : ∀ c ∈ core.head?, isSpace c = false := fun c hc => h.head c (List.mem_head?_append_of_mem_head? hc)

theorem trim_eq : trim s = if core.getLast? = some ';' then core.dropLast.rdropWhile isSpace else core := by
  have hdrop : (s.dropWhile isSpace).rdropWhile isSpace = core := by
    rw [h.parts, dropWhile_blank h.before h.head, rdropWhile_blank h.after h.last]
  simp only [trim, hdrop, beq_iff_eq]

end Core

theorem trimOf_trim (s : Text) : TrimOf s (trim s) := by
  obtain ⟨lead, core, trail, hcore⟩ := exists_core s
  rw [hcore.trim_eq]
  split
  · rename_i hsemi
    obtain ⟨pre, rfl⟩ : ∃ pre, core = pre ++ [';'] := List.getLast?_eq_some_iff.mp hsemi
    rw [List.dropLast_concat]
    obtain ⟨gap, hgap, hpre⟩ := of_rdropWhile (s := pre) rfl
    have hhead : ∀ c ∈ pre.head?, isSpace c = false := fun c hc =>
      hcore.head_core c (List.mem_head?_append_of_mem_head? hc)
    refine ⟨⟨lead, gap ++ [';'], trail, ?_, hcore.before, hcore.after, .inr ⟨gap, rfl, hgap⟩⟩, head_rdropWhile hhead,
      last_rdropWhile⟩
    rw [hcore.parts]
    nth_rewrite 1 [hpre]
    simp
  · rename_i hsemi
    exact ⟨⟨lead, [], trail, hcore.parts, hcore.before, hcore.after, .inl ⟨rfl, hsemi⟩⟩, hcore.head_core, hcore.last⟩

/-! ### The bytes -/

section
variable {m : Memory Char} {p : Int} {body gap : Text}

theorem clearBack_eq (h : Lies m.bytes p (body ++ gap ++ [nul])) (hbody : body ≠ [])
    (hlast : ∀ c ∈ body.getLast?, isSpace c = false) (hgap : Blank gap) :
    ∃ m', clearBack p ((body ++ gap).length + 1) m = some (body.length + 1, m') ∧ Lies m'.bytes p (body ++ [nul]) ∧
      Within p (p + (body ++ gap).length) m m' := by
  induction gap using List.reverseRecOn generalizing m with
  | nil =>
    rw [List.append_nil] at h ⊢
    obtain ⟨body, c, rfl⟩ := (List.eq_nil_or_concat body).resolve_left hbody
    rw [List.concat_eq_append] at h hlast ⊢
    have hbyte : m.bytes (p + body.length) = c := lies_singleton.mp (lies_append.mp (lies_append.mp h).1).2
    have hc : isSpace c = false := hlast c (by simp)
    have hpos : p + ((body ++ [c]).length : Int) - 1 = p + body.length := by
      rw [List.length_append, List.length_singleton]
      omega
    refine ⟨m.read (p + body.length), ?_, h, within_read (by omega) (by omega)⟩
    rw [clearBack, hpos, load_bind, hbyte, hc]
    rfl
  | append_singleton gap c ih =>
    rw [← List.append_assoc] at h ⊢
    obtain ⟨htext, -⟩ := lies_append.mp h
    obtain ⟨hkept, hbyte⟩ := lies_append.mp htext
    rw [lies_singleton] at hbyte
    rw [@List.length_append _ (body ++ gap) [c], List.length_singleton]
    have hpos : p + (((body ++ gap).length + 1 : Nat) : Int) - 1 = p + (body ++ gap).length := by omega
    have hnext : Lies ((m.read (p + (body ++ gap).length)).write (p + (body ++ gap).length) nul).bytes p
        (body ++ gap ++ [nul]) := by
      rw [lies_append, lies_singleton]
      exact ⟨hkept.write (.inr (Int.le_refl _)), if_pos rfl⟩
    obtain ⟨m', hrun, hlies, hwithin⟩ := ih hnext fun d hd => hgap d (by simp [hd])
    refine ⟨m', ?_, hlies, ?_⟩
    · rw [← hrun, clearBack, hpos, load_bind, hbyte, if_pos (hgap c (by simp)), store_bind]
    · exact ((within_read (by omega) (by omega)).trans (within_write (by omega) (by omega))).trans
        (hwithin.mono (Int.le_refl p) (by omega))

theorem clearBack_one : ∃ n m', clearBack p 1 m = some (n, m') ∧ p - 1 ∈ m'.touched ∧
    (∀ q, q ≠ p - 1 → m'.bytes q = m.bytes q) ∧ Within (p - 1) (p - 1) m m' := by
  have hpos : p + ((0 : Nat) : Int) - 1 = p - 1 := by simp
  have hread : Within (p - 1) (p - 1) m (m.read (p - 1)) := within_read (Int.le_refl _) (Int.le_refl _)
  cases hspace : isSpace (m.bytes (p - 1)) with
  | false =>
    refine ⟨1, m.read (p - 1), ?_, by simp, fun _ _ => rfl, hread⟩
    rw [clearBack, hpos, load_bind, hspace]
    rfl
  | true =>
    refine ⟨0, (m.read (p - 1)).write (p - 1) nul, ?_, by simp, fun q hq => if_neg hq,
      hread.trans (within_write (Int.le_refl _) (Int.le_refl _))⟩
    rw [clearBack, hpos, load_bind, hspace]
    rfl

theorem clearSemicolon_keeps {core : Text} (h : Lies m.bytes p (core ++ [nul])) (hlast : core.getLast? ≠ some ';') :
    ∃ m', clearSemicolon p core.length m = some (core.length, m') ∧ m'.bytes = m.bytes ∧
      Within p (p + core.length) m m' := by
  rcases List.eq_nil_or_concat core with rfl | ⟨core, c, rfl⟩
  · exact ⟨m, rfl, rfl, .refl⟩
  · rw [List.concat_eq_append] at h hlast ⊢
    have hbyte : m.bytes (p + core.length) = c := lies_singleton.mp (lies_append.mp (lies_append.mp h).1).2
    have hc : (c == ';') = false := by simpa using hlast
    rw [List.length_append, List.length_singleton]
    refine ⟨m.read (p + core.length), ?_, rfl, within_read (by omega) (by omega)⟩
    rw [clearSemicolon, load_bind, hbyte, hc]
    rfl

theorem clearSemicolon_concat {pre : Text} (h : Lies m.bytes p (pre ++ [';'] ++ [nul])) :
    ∃ m', clearSemicolon p (pre ++ [';']).length m = clearBack p (pre.length + 1) m' ∧
      Lies m'.bytes p (pre ++ [nul]) ∧ Within p (p + pre.length) m m' := by
  obtain ⟨hkept, hbyte⟩ := lies_append.mp (lies_append.mp h).1
  rw [lies_singleton] at hbyte
  rw [List.length_append, List.length_singleton]
  refine ⟨(m.read (p + pre.length)).write (p + pre.length) nul, ?_, ?_, ?_⟩
  · rw [clearSemicolon, load_bind, hbyte]
    rfl
  · rw [lies_append, lies_singleton]
    exact ⟨hkept.write (.inr (Int.le_refl _)), if_pos rfl⟩
  · exact (within_read (by omega) (Int.le_refl _)).trans (within_write (by omega) (Int.le_refl _))

variable {s : Text} {fuel : Nat}

theorem trimInPlace_core {lead core trail : Text} (hcore : Core s lead core trail)
    (h : Holds m.bytes p s) (hfuel : s.length < fuel) :
    ∃ m', trimInPlace fuel p m =
        (clearSemicolon (p + lead.length) core.length >>= fun _ => pure (p + lead.length)) m' ∧
      Lies m'.bytes (p + lead.length) (core ++ [nul]) ∧ Within p (p + s.length) m m' := by
  obtain ⟨hnul, hlies⟩ := h
  have hlen : s.length = lead.length + (core ++ trail).length := by
    rw [hcore.parts, List.length_append]
  rw [hcore.parts, List.append_assoc, lies_append] at hlies
  obtain ⟨hlead, hrest⟩ := hlies
  have hnonul : ∀ c ∈ core ++ trail, (c != nul) = true := by
    rintro c hc
    rw [bne_iff_ne]
    rintro rfl
    exact hnul (by rw [hcore.parts]; exact List.mem_append_right _ hc)
  -- the spaces at the start
  obtain ⟨x, hx, hstop⟩ : ∃ x, Lies m.bytes p (lead ++ [x]) ∧ (x != nul && isSpace x) = false := by
    cases hct : core ++ trail with
    | nil =>
      rw [hct] at hrest
      exact ⟨nul, lies_append.mpr ⟨hlead, hrest⟩, rfl⟩
    | cons x rest =>
      have hspace : isSpace x = false := hcore.head x (by simp [hct])
      rw [hct, List.cons_append] at hrest
      refine ⟨x, lies_append.mpr ⟨hlead, lies_singleton.mpr (lies_cons.mp hrest).1⟩, ?_⟩
      rw [hspace, Bool.and_false]
  have hskip : ∀ c ∈ lead, (c != nul && isSpace c) = true := by
    intro c hc
    have hspace := hcore.before c hc
    rw [hspace, Bool.and_true, bne_iff_ne]
    rintro rfl
    exact absurd hspace (by decide)
  obtain ⟨m₁, hrun₁, hbytes₁, hwithin₁⟩ := skipWhile_eq (c := fun c => c != nul && isSpace c) hx hskip hstop
    (show lead.length < fuel by omega)
  -- the terminator
  rw [← hbytes₁] at hrest
  obtain ⟨m₂, hrun₂, hbytes₂, hwithin₂⟩ := skipWhile_eq (c := (· != nul)) hrest hnonul (by simp)
    (show (core ++ trail).length < fuel by omega)
  -- the spaces at the end
  rw [← hbytes₂] at hrest
  obtain ⟨m₃, hrun₃, hbytes₃, hwithin₃⟩ := dropBack_eq (lies_append.mp hrest).1 hcore.after hcore.last
  rw [← hbytes₃] at hrest
  have hdistance : (p + lead.length + (core ++ trail).length - (p + lead.length)).toNat = (core ++ trail).length := by
    omega
  have hle : core.length ≤ (core ++ trail).length := by simp
  refine ⟨m₃.write (p + lead.length + core.length) nul, ?_, ?_, ?_⟩
  · rw [trimInPlace, bind_run hrun₁, bind_run hrun₂, hdistance, bind_run hrun₃, store_bind]
  · rw [lies_append, lies_singleton]
    exact ⟨(lies_append.mp (lies_append.mp hrest).1).1.write (.inr (Int.le_refl _)), if_pos rfl⟩
  · refine ((hwithin₁.mono ?_ ?_).trans ((hwithin₂.mono ?_ ?_).trans (hwithin₃.mono ?_ ?_))).trans
      (within_write ?_ ?_) <;> omega

def Lone (s : Text) : Prop := ∃ trail, Blank trail ∧ s = ';' :: trail

theorem nul_not_mem_trim (h : nul ∉ s) : nul ∉ trim s := by
  obtain ⟨lead, close, trail, hs, -⟩ := (trimOf_trim s).parts
  rintro hmem
  rw [hs] at h
  exact h (List.mem_append_right _ (List.mem_append_left _ hmem))

theorem trimInPlace_eq {lo : Int} (h : Holds m.bytes p s) (hfuel : s.length < fuel) (hlo : lo ≤ p)
    (hlone : Lone s → lo ≤ p - 1) :
    ∃ q m', trimInPlace fuel p m = some (q, m') ∧ Holds m'.bytes q (trim s) ∧ Within lo (p + s.length) m m' := by
  obtain ⟨lead, core, trail, hcore⟩ := exists_core s
  obtain ⟨m₁, hrun₁, hlies₁, hwithin₁⟩ := trimInPlace_core hcore h hfuel
  have hlen : s.length = lead.length + (core.length + trail.length) := by
    rw [hcore.parts, List.length_append, List.length_append]
  have hnul := nul_not_mem_trim h.1
  rw [hcore.trim_eq] at hnul ⊢
  by_cases hsemi : core.getLast? = some ';'
  · rw [if_pos hsemi] at hnul ⊢
    obtain ⟨pre, rfl⟩ : ∃ pre, core = pre ++ [';'] := List.getLast?_eq_some_iff.mp hsemi
    rw [List.dropLast_concat] at hnul ⊢
    rw [List.length_append, List.length_singleton] at hlen
    obtain ⟨m₂, hrun₂, hlies₂, hwithin₂⟩ := clearSemicolon_concat hlies₁
    obtain ⟨gap, hgap, hpre⟩ := of_rdropWhile (s := pre) rfl
    rcases pre.eq_nil_or_concat with rfl | hconcat
    · -- the loop starts behind an empty text
      obtain ⟨n, m₃, hrun₃, -, hbytes₃, hwithin₃⟩ := @clearBack_one m₂ (p + lead.length)
      refine ⟨p + lead.length, m₃, ?_, ⟨hnul, ?_⟩, ?_⟩
      · rw [hrun₁, bind_run (hrun₂.trans hrun₃)]
        rfl
      · rw [List.rdropWhile_nil, List.nil_append, lies_singleton, hbytes₃ _ (by omega)]
        exact lies_singleton.mp hlies₂
      · have hbefore : lo ≤ p + lead.length - 1 := by
          rcases Nat.eq_zero_or_pos lead.length with hzero | hpos
          · have hle := hlone ⟨trail, hcore.after, by rw [hcore.parts, List.length_eq_zero_iff.mp hzero]; rfl⟩
            omega
          · omega
        refine ((hwithin₁.mono ?_ ?_).trans (hwithin₂.mono ?_ ?_)).trans (hwithin₃.mono ?_ ?_) <;>
          simp only [List.length_nil] at * <;> omega
    · -- the text before the semicolon starts with a character that is no space
      have hbody : pre.rdropWhile isSpace ≠ [] := by
        intro hnil
        rw [List.rdropWhile_eq_nil_iff] at hnil
        cases pre with
        | nil => simp at hconcat
        | cons c pre =>
          have hc : isSpace c = false := hcore.head_core c rfl
          rw [hnil c (List.mem_cons_self ..)] at hc
          exact Bool.noConfusion hc
      rw [hpre] at hlies₂
      obtain ⟨m₃, hrun₃, hlies₃, hwithin₃⟩ := clearBack_eq hlies₂ hbody last_rdropWhile hgap
      rw [← hpre] at hrun₃ hwithin₃
      refine ⟨p + lead.length, m₃, ?_, ⟨hnul, hlies₃⟩, ?_⟩
      · rw [hrun₁, bind_run (hrun₂.trans hrun₃)]
        rfl
      · refine ((hwithin₁.mono ?_ ?_).trans (hwithin₂.mono ?_ ?_)).trans (hwithin₃.mono ?_ ?_) <;> omega
  · rw [if_neg hsemi] at hnul ⊢
    obtain ⟨m₂, hrun₂, hbytes₂, hwithin₂⟩ := clearSemicolon_keeps hlies₁ hsemi
    refine ⟨p + lead.length, m₂, ?_, ⟨hnul, hbytes₂ ▸ hlies₁⟩, ?_⟩
    · rw [hrun₁, bind_run hrun₂]
      rfl
    · refine (hwithin₁.mono ?_ ?_).trans (hwithin₂.mono ?_ ?_) <;> omega

theorem trimInPlace_lone (h : Holds m.bytes p s) (hfuel : s.length < fuel) (hlone : Lone s) :
    ∃ q m', trimInPlace fuel p m = some (q, m') ∧ p - 1 ∈ m'.touched := by
  obtain ⟨trail, htrail, rfl⟩ := hlone
  have hcore : Core (';' :: trail) [] ([] ++ [';']) trail :=
    ⟨rfl, by simp [Blank], htrail, by simp [isSpace], by simp [isSpace]⟩
  obtain ⟨m₁, hrun₁, hlies₁, -⟩ := trimInPlace_core hcore h hfuel
  obtain ⟨m₂, hrun₂, -, -⟩ := clearSemicolon_concat hlies₁
  obtain ⟨n, m₃, hrun₃, htouched, -⟩ := @clearBack_one m₂ (p + ([] : Text).length)
  refine ⟨p + ([] : Text).length, m₃, ?_, by simpa using htouched⟩
  rw [hrun₁, bind_run (hrun₂.trans hrun₃)]
  rfl

end

/-- Both trimmers give the trimmed text, and the one in place touches nothing but the bytes of the string. -/
def TrimsInPlace (s : Text) : Prop :=
  TrimOf s (trim s) ∧ ∀ (bytes : Int → Char) (p : Int) (fuel : Nat), Holds bytes p s → s.length < fuel →
    ∃ q m', trimInPlace fuel p ⟨bytes, []⟩ = some (q, m') ∧ Holds m'.bytes q (trim s) ∧
      ∀ r ∈ m'.touched, p ≤ r ∧ r ≤ p + s.length

theorem Lone.exists_holds (h : Lone s) : ∃ bytes, Holds bytes 0 s := by
  obtain ⟨trail, htrail, rfl⟩ := h
  refine ⟨fun i => (';' :: trail ++ [nul]).getD i.toNat nul, ?_, fun i a hi => ?_⟩
  · have hnul := not_mem_blank htrail (c := nul) (by decide)
    simpa [nul] using hnul
  · simp only [Int.zero_add, Int.toNat_natCast, List.getD_eq_getElem?_getD, hi, Option.getD_some]

theorem Lone.leaves (h : Lone s) : ¬TrimsInPlace s := by
  rintro ⟨-, hplace⟩
  obtain ⟨bytes, hholds⟩ := h.exists_holds
  obtain ⟨q, m', hrun, -, hbounds⟩ := hplace bytes 0 (s.length + 1) hholds (Nat.lt_succ_self _)
  obtain ⟨q', m'', hrun', htouched⟩ := trimInPlace_lone (m := ⟨bytes, []⟩) hholds (Nat.lt_succ_self _) h
  obtain ⟨rfl, rfl⟩ : q = q' ∧ m' = m'' := by
    rw [hrun] at hrun'
    exact Prod.mk.inj (Option.some.inj hrun')
  have hbound := (hbounds _ htouched).1
  omega

/-- Exactly behind a lone semicolon the trimmer in place leaves its string. -/
theorem trimsInPlace_iff {s : Text} : TrimsInPlace s ↔ ¬Lone s := by
  refine ⟨fun h hlone => hlone.leaves h, fun hlone => ⟨trimOf_trim s, ?_⟩⟩
  intro bytes p fuel hholds hfuel
  obtain ⟨q, m', hrun, htext, hwithin⟩ := trimInPlace_eq (m := ⟨bytes, []⟩) hholds hfuel (Int.le_refl p)
    (fun h => absurd h hlone)
  refine ⟨q, m', hrun, htext, fun r hr => ?_⟩
  rcases hwithin r hr with hold | hin
  · exact absurd hold (List.not_mem_nil)
  · exact hin

theorem not_trimsInPlace : ¬TrimsInPlace ";".toList := Lone.leaves ⟨[], by simp [Blank], rfl⟩

end Cxpr.Document
