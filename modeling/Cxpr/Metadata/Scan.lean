import Cxpr.Document.Text

/-! The scanners of metadata (`src/model/accessors.c`), and the texts that they pass over: texts whose brackets and strings
    are closed. A cursor is the rest of the text behind it, and a limit the length of the rest at it. -/

namespace Cxpr.Metadata
open Document

def inside (limit : Option Nat) (cursor : Text) : Bool := !cursor.isEmpty && limit.all (· < cursor.length)

def scan (stop : Depth → Char → Bool) (limit : Option Nat) : Depth → Text → Text :=
  Scan.dropTo Depth.advance fun d rest => !inside limit rest || rest.head?.any (stop d)

def endsValue (d : Depth) (c : Char) : Bool := d.top && (c == ',' || c == '\n' || c == '}')

def endsBlock (d : Depth) (c : Char) : Bool := d.quote.isNone && d.brace == 0 && c == '}'

/-- `cxpr_metadata_field_value_end_bounded`. -/
def valueEnd (limit : Option Nat) (cursor : Text) : Text := scan endsValue limit {} cursor

def blockBodyEnd (limit : Option Nat) (cursor : Text) : Text := scan endsBlock limit {} cursor

theorem valueEnd_length (limit : Option Nat) (cursor : Text) : (valueEnd limit cursor).length ≤ cursor.length :=
  (Scan.dropTo_suffix _ _).length_le

inductive Quoted (q : Char) : Text → Prop
  | nil : Quoted q []
  | char {c : Char} {s : Text} (hq : c ≠ q) (hc : c ≠ '\\') (h : Quoted q s) : Quoted q (c :: s)
  | escape {c : Char} {s : Text} (h : Quoted q s) : Quoted q ('\\' :: c :: s)

def brackets : List (Char × Char) := [('(', ')'), ('[', ']'), ('{', '}')]

def plain (c : Char) : Bool := !(['"', '\'', '(', ')', '[', ']', '{', '}'].contains c)

/-- All strings and brackets are closed; at the top level of a value there is no separator. -/
inductive Closed : Bool → Text → Prop
  | nil {top : Bool} : Closed top []
  | char {top : Bool} {c : Char} {s : Text} (hc : plain c = true) (htop : top = true → c ≠ ',' ∧ c ≠ '\n')
    (h : Closed top s) : Closed top (c :: s)
  | quoted {top : Bool} {q : Char} {body s : Text} (hq : q = '"' ∨ q = '\'') (hbody : Quoted q body) (h : Closed top s) :
    Closed top (q :: (body ++ q :: s))
  | bracket {top : Bool} {o c : Char} {body s : Text} (ho : (o, c) ∈ brackets) (hbody : Closed false body)
    (h : Closed top s) : Closed top (o :: (body ++ c :: s))

namespace Closed
variable {top : Bool} {s t : Text}

theorem append (hs : Closed top s) (ht : Closed top t) : Closed top (s ++ t) := by
  induction hs with
  | nil => exact ht
  | char hc htop _ ih => exact .char hc htop (ih ht)
  | quoted hq hbody _ ih =>
    rw [List.cons_append, List.append_assoc]
    exact .quoted hq hbody (ih ht)
  | bracket ho hbody _ _ ih =>
    rw [List.cons_append, List.append_assoc]
    exact .bracket ho hbody (ih ht)

theorem deeper (h : Closed top s) : Closed false s := by
  induction h with
  | nil => exact .nil
  | char hc _ _ ih => exact .char hc (by simp) ih
  | quoted hq hbody _ ih => exact .quoted hq hbody ih
  | bracket ho hbody _ _ ih => exact .bracket ho hbody ih

theorem of_plain (h : ∀ c ∈ s, plain c = true ∧ (top = true → c ≠ ',' ∧ c ≠ '\n')) : Closed top s := by
  induction s with
  | nil => exact .nil
  | cons c s ih =>
    obtain ⟨⟨hc, htop⟩, hs⟩ := List.forall_mem_cons.mp h
    exact .char hc htop (ih hs)

end Closed

section
variable {stop : Depth → Char → Bool} {limit : Option Nat} {d : Depth} {c : Char} {rest : Text}

theorem scan_step (hin : inside limit (c :: rest) = true) (hstop : stop d c = false) :
    scan stop limit d (c :: rest) = scan stop limit (d.advance c) rest :=
  Scan.dropTo_of_not_hit (by simp [hin, hstop])

theorem scan_stop (hstop : stop d c = true) : scan stop limit d (c :: rest) = c :: rest :=
  Scan.dropTo_of_hit (by simp [hstop])

theorem scan_outside (hin : inside limit rest = false) : scan stop limit d rest = rest := by
  cases rest with
  | nil => rfl
  | cons c rest => exact Scan.dropTo_of_hit (by simp [hin])

def Beyond (limit : Option Nat) (rest : Text) : Prop := ∀ n ∈ limit, n ≤ rest.length

theorem inside_of_beyond {s : Text} (h : Beyond limit rest) (hs : rest.length < s.length) : inside limit s = true := by
  have hne : s ≠ [] := List.ne_nil_of_length_pos (by omega)
  cases limit with
  | none => simp [inside, hne]
  | some n =>
    have hn := h n rfl
    simp only [inside, Option.all_some, List.isEmpty_eq_false_iff.mpr hne, Bool.not_false, Bool.true_and,
      decide_eq_true_eq]
    omega

def Stops (stop : Depth → Char → Bool) : Prop :=
  ∀ d c, stop d c = true → d.quote = none ∧ (c = '}' ∧ d.brace = 0 ∨ (c = ',' ∨ c = '\n') ∧ d.top = true)

theorem stops_endsValue : Stops endsValue := by
  intro d c h
  rw [endsValue, Bool.and_eq_true] at h
  obtain ⟨htop, hc⟩ := h
  have hd : d.brace = 0 ∧ d.quote = none := by
    simp only [Depth.top, Bool.and_eq_true, beq_iff_eq, Option.isNone_iff_eq_none] at htop
    exact ⟨htop.1.1.2, htop.2⟩
  refine ⟨hd.2, ?_⟩
  simp only [Bool.or_eq_true, beq_iff_eq] at hc
  rcases hc with (rfl | rfl) | rfl
  · exact .inr ⟨.inl rfl, htop⟩
  · exact .inr ⟨.inr rfl, htop⟩
  · exact .inl ⟨rfl, hd.1⟩

theorem stops_endsBlock : Stops endsBlock := by
  intro d c h
  simp only [endsBlock, Bool.and_eq_true, beq_iff_eq, Option.isNone_iff_eq_none] at h
  exact ⟨h.1.1, .inl ⟨h.2, h.1.2⟩⟩

theorem scan_quoted (hstop : Stops stop) {q : Char} (hq : q = '"' ∨ q = '\'') {body : Text} (hbody : Quoted q body)
    (hlimit : Beyond limit rest) (hquote : d.quote = some q) (hescaped : d.escaped = false) :
    scan stop limit d (body ++ q :: rest) = scan stop limit { d with quote := none } rest := by
  have hcalm : ∀ (d : Depth) (c : Char), d.quote = some q → stop d c = false := by
    intro d c hd
    by_contra h
    rw [Bool.not_eq_false] at h
    rw [(hstop d c h).1] at hd
    cases hd
  have hin : ∀ c s, inside limit (c :: (s ++ q :: rest)) = true :=
    fun c s => inside_of_beyond hlimit (by simp; omega)
  have hbackslash : q ≠ '\\' := by
    rcases hq with rfl | rfl <;> decide
  induction hbody with
  | nil =>
    rw [List.nil_append, scan_step (inside_of_beyond hlimit (by simp)) (hcalm d q hquote)]
    congr 1
    simp [Depth.advance, hquote, hescaped, hbackslash]
  | char hne hc _ ih =>
    rw [List.cons_append, scan_step (hin _ _) (hcalm d _ hquote), ← ih]
    congr 1
    simp [Depth.advance, hquote, hescaped, hne, hc]
  | @escape c s _ ih =>
    have hfirst : d.advance '\\' = { d with escaped := true } := by simp [Depth.advance, hquote, hescaped]
    have hsecond : ({ d with escaped := true } : Depth).advance c = d := by
      obtain ⟨paren, brace, bracket, quote, escaped⟩ := d
      dsimp only at hquote hescaped
      simp [Depth.advance, hquote, hescaped]
    rw [List.cons_append, List.cons_append, scan_step (inside_of_beyond hlimit (by simp only [List.length_cons, List.length_append]; omega)) (hcalm d _ hquote), hfirst,
      scan_step (hin _ _) (hcalm { d with escaped := true } _ hquote), hsecond, ih]

theorem advance_bracket {o : Char} (ho : (o, c) ∈ brackets) (hquote : d.quote = none) :
    (d.advance o).quote = none ∧ (d.advance o).escaped = d.escaped ∧ (d.advance o).top = false ∧
      (d.advance o).advance c = d ∧ (c = '}' → (d.advance o).brace ≠ 0) := by
  obtain ⟨paren, brace, bracket, quote, escaped⟩ := d
  dsimp only at hquote
  simp only [brackets, List.mem_cons, Prod.mk.injEq, List.not_mem_nil, or_false] at ho
  rcases ho with ⟨rfl, rfl⟩ | ⟨rfl, rfl⟩ | ⟨rfl, rfl⟩ <;> simp [Depth.advance, Depth.top, hquote]

theorem scan_closed (hstop : Stops stop) {top : Bool} {s : Text} (hs : Closed top s) (hlimit : Beyond limit rest)
    (hquote : d.quote = none) (hescaped : d.escaped = false)
    (htop : top = true ∨ d.top = false ∨ ∀ d c, stop d c = true → c = '}') :
    scan stop limit d (s ++ rest) = scan stop limit d rest := by
  induction hs generalizing d rest with
  | nil => rfl
  | @char top c s hc hsep _ ih =>
    have hcalm : stop d c = false := by
      by_contra h
      rw [Bool.not_eq_false] at h
      rcases (hstop d c h).2 with ⟨rfl, -⟩ | ⟨hcomma, hd⟩
      · exact absurd hc (by decide)
      · rcases htop with rfl | htop | hbrace
        · obtain ⟨hne, hne'⟩ := hsep rfl
          exact hcomma.elim hne hne'
        · rw [hd] at htop
          cases htop
        · have hc' := hbrace d c h
          subst hc'
          exact absurd hc (by decide)
    have hadvance : d.advance c = d := by
      simp only [plain, List.contains_eq_mem, List.mem_cons, not_or, Bool.not_eq_true', decide_eq_false_iff_not] at hc
      simp [Depth.advance, hquote, hc]
    rw [List.cons_append, scan_step (inside_of_beyond hlimit (by simp only [List.length_cons, List.length_append]; omega)) hcalm, hadvance, ih hlimit hquote hescaped htop]
  | @quoted top q body s hq hbody _ ih =>
    have hcalm : stop d q = false := by
      by_contra h
      rw [Bool.not_eq_false] at h
      rcases (hstop d q h).2 with ⟨rfl, -⟩ | ⟨rfl | rfl, -⟩ <;> simp at hq
    have hadvance : d.advance q = { d with quote := some q } := by
      rcases hq with rfl | rfl <;> simp [Depth.advance, hquote]
    have hbeyond : Beyond limit (s ++ rest) := fun n hn => (hlimit n hn).trans (by simp)
    rw [List.cons_append, List.append_assoc, List.cons_append,
      scan_step (inside_of_beyond hlimit (by simp only [List.length_cons, List.length_append]; omega)) hcalm, hadvance,
      @scan_quoted _ _ { d with quote := some q } _ hstop q hq body hbody hbeyond rfl hescaped, ← hquote]
    exact ih hlimit hquote hescaped htop
  | @bracket top o c body s ho hbody _ ih ih' =>
    obtain ⟨hquote', hescaped', htop', hclose, hbrace⟩ := advance_bracket ho hquote
    have hopen : o ≠ '}' ∧ o ≠ ',' ∧ o ≠ '\n' ∧ c ≠ ',' ∧ c ≠ '\n' := by
      simp only [brackets, List.mem_cons, Prod.mk.injEq, List.not_mem_nil, or_false] at ho
      rcases ho with ⟨rfl, rfl⟩ | ⟨rfl, rfl⟩ | ⟨rfl, rfl⟩ <;> decide
    have hcalm : stop d o = false := by
      by_contra h
      rw [Bool.not_eq_false] at h
      rcases (hstop d o h).2 with ⟨hc, -⟩ | ⟨hc | hc, -⟩
      · exact hopen.1 hc
      · exact hopen.2.1 hc
      · exact hopen.2.2.1 hc
    have hcalm' : stop (d.advance o) c = false := by
      by_contra h
      rw [Bool.not_eq_false] at h
      rcases (hstop _ c h).2 with ⟨hc, hzero⟩ | ⟨hc | hc, -⟩
      · exact hbrace hc hzero
      · exact hopen.2.2.2.1 hc
      · exact hopen.2.2.2.2 hc
    have hbeyond : Beyond limit (c :: (s ++ rest)) := fun n hn => (hlimit n hn).trans (by simp; omega)
    rw [List.cons_append, List.append_assoc, List.cons_append,
      scan_step (inside_of_beyond hlimit (by simp only [List.length_cons, List.length_append]; omega)) hcalm,
      ih hbeyond hquote' (hescaped'.trans hescaped) (.inr (.inl htop')),
      scan_step (inside_of_beyond hlimit (by simp only [List.length_cons, List.length_append]; omega)) hcalm', hclose, ih' hlimit hquote hescaped htop]

end

end Cxpr.Metadata
