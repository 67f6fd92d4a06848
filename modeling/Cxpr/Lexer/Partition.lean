import Mathlib.Logic.Relation
import Cxpr.Lexer.Next

/-! Repeated calls of `cxpr_lexer_next` cut a source into tokens and what is skipped between them. What is skipped is
    whitespace and comments, but a block comment that nothing closes is skipped too, and the source ends in it. -/

namespace Cxpr.Lexer
open Document (Text isSpace)
open Relation
variable {D : Type}

def EndsLine (t : Text) : Prop := ∀ c ∈ t.head?, c = '\n'

def Open (t : Text) : Prop := ¬['*', '/'] <:+: t

inductive Gap : Text → Text → Prop
  | space {c : Char} {t : Text} (h : isSpace c = true) : Gap (c :: t) t
  | hash {body t : Text} (hbody : '\n' ∉ body) (hend : EndsLine t) : Gap ('#' :: (body ++ t)) t
  | line {body t : Text} (hbody : '\n' ∉ body) (hend : EndsLine t) : Gap ('/' :: '/' :: (body ++ t)) t
  | block {body t : Text} (hbody : Open body) : Gap ('/' :: '*' :: (body ++ '*' :: '/' :: t)) t

abbrev Skips : Text → Text → Prop := ReflTransGen Gap

/-- Behind whitespace and complete comments stands a block comment that nothing closes. -/
def Dangling (t : Text) : Prop := ∃ body, Skips t ('/' :: '*' :: body) ∧ Open body

/-- The lexer after a number of calls of `cxpr_lexer_next`. -/
def calls (lib : Numerals D) (source : Text) : Nat → Lexer
  | 0 => Cursor.start source
  | n + 1 => (next lib (calls lib source n)).2

def token (lib : Numerals D) (source : Text) (n : Nat) : Token D := (next lib (calls lib source n)).1

def Token.Ordinary (t : Token D) : Prop := t.type ≠ .eof ∧ t.type ≠ .error

instance (t : Token D) : Decidable t.Ordinary := inferInstanceAs (Decidable (_ ∧ _))

def Running (lib : Numerals D) (source : Text) (n : Nat) : Prop := ∀ m < n, (token lib source m).Ordinary

def skippedText (lib : Numerals D) (source : Text) (n : Nat) : Text :=
  (source.take (token lib source n).position).drop (calls lib source n).position

def tokenText (lib : Numerals D) (source : Text) (n : Nat) : Text :=
  (source.take (calls lib source (n + 1)).position).drop (token lib source n).position

/-- How the text of a token is written in the source: a parameter behind a dollar sign, a string in quotes. -/
def Token.Spelled (t : Token D) (text : Text) : Prop :=
  match t.type with
  | .param => text = '$' :: t.text
  | .string => ∃ quote, text = quote :: (t.text ++ [quote])
  | _ => text = t.text

/-- The partition of a source by the calls up to the first that returns no ordinary token. -/
structure Partitioned (lib : Numerals D) (source : Text) : Prop where
  ends : ∃ n, Running lib source n ∧ ¬(token lib source n).Ordinary
  advances : ∀ n, (token lib source n).Ordinary → (calls lib source n).position < (calls lib source (n + 1)).position
  skipped : ∀ n, Running lib source n → (token lib source n).type ≠ .error →
    Skips (source.drop (calls lib source n).position) (source.drop (token lib source n).position)
  spelled : ∀ n, Running lib source n → (token lib source n).Ordinary →
    (token lib source n).Spelled (tokenText lib source n)
  texts : ∀ n, Running lib source n → source.take (calls lib source n).position =
    (List.range n).flatMap fun i => skippedText lib source i ++ tokenText lib source i
  whole : ∀ n, Running lib source n → (token lib source n).type = .eof → (token lib source n).position = source.length
  place : ∀ n, Running lib source n → (token lib source n).type ≠ .error →
    (token lib source n).position ≤ source.length ∧
      (token lib source n).line = 1 + (source.take (token lib source n).position).count '\n' ∧
      (token lib source n).column = 1 + ((source.take (token lib source n).position).rtakeWhile (· != '\n')).length

variable {u body t : Text} {l : Lexer}

theorem gap_cases {s : Text} (h : Gap s u) :
    (∃ c, s = c :: u ∧ isSpace c = true) ∨ (∃ body, s = '#' :: (body ++ u) ∧ '\n' ∉ body ∧ EndsLine u) ∨
      (∃ body, s = '/' :: '/' :: (body ++ u) ∧ '\n' ∉ body ∧ EndsLine u) ∨
      ∃ body, s = '/' :: '*' :: (body ++ '*' :: '/' :: u) ∧ Open body := by
  cases h with
  | space h => exact .inl ⟨_, rfl, h⟩
  | hash hbody hend => exact .inr (.inl ⟨_, rfl, hbody, hend⟩)
  | line hbody hend => exact .inr (.inr (.inl ⟨_, rfl, hbody, hend⟩))
  | block hbody => exact .inr (.inr (.inr ⟨_, rfl, hbody⟩))

theorem eq_of_line {body' u' : Text} (hbody : '\n' ∉ body) (hbody' : '\n' ∉ body') (hend : EndsLine u)
    (hend' : EndsLine u') (h : body ++ u = body' ++ u') : u = u' := by
  have hdrop : ∀ {b v : Text}, '\n' ∉ b → EndsLine v → (b ++ v).dropWhile (· != '\n') = v := by
    intro b v hb hv
    have hall : ∀ c ∈ b, (c != '\n') = true := fun c hc => by
      simpa using fun hnewline : c = '\n' => hb (hnewline ▸ hc)
    rw [List.dropWhile_append_of_pos hall]
    cases v with
    | nil => rfl
    | cons c v =>
      obtain rfl : c = '\n' := hv c rfl
      rfl
  rw [← hdrop hbody hend, ← hdrop hbody' hend', h]

theorem eq_of_block {body' u' : Text} (hbody : Open body) (hbody' : Open body')
    (h : body ++ '*' :: '/' :: u = body' ++ '*' :: '/' :: u') : u = u' := by
  -- the longer of two bodies would hold the closing of the shorter one
  have hcut : ∀ {b a v v' : Text}, Open (b ++ a) → '*' :: '/' :: v = a ++ '*' :: '/' :: v' → v = v' := by
    intro b a v v' hopen hv
    cases a with
    | nil => simpa using hv
    | cons x a =>
      cases a with
      | nil => simp at hv
      | cons y a =>
        simp only [List.cons_append, List.cons.injEq] at hv
        refine absurd ⟨b, a, ?_⟩ hopen
        rw [← hv.1, ← hv.2.1]
        simp
  rcases List.append_eq_append_iff.mp h with ⟨a, rfl, hu⟩ | ⟨a, rfl, hu⟩
  · exact hcut hbody' hu
  · exact (hcut hbody hu).symm

theorem gap_rightUnique : Relator.RightUnique Gap := by
  intro s u u' h h'
  rcases gap_cases h with ⟨c, rfl, hc⟩ | ⟨body, rfl, hbody, hend⟩ | ⟨body, rfl, hbody, hend⟩ | ⟨body, rfl, hbody⟩ <;>
    rcases gap_cases h' with ⟨c', hs, hc'⟩ | ⟨body', hs, hbody', hend'⟩ | ⟨body', hs, hbody', hend'⟩ | ⟨body', hs, hbody'⟩ <;>
    simp only [List.cons.injEq, Char.reduceEq, false_and, true_and] at hs
  · exact hs.2
  · exact absurd (hs.1 ▸ hc) (by decide)
  · exact absurd (hs.1 ▸ hc) (by decide)
  · exact absurd (hs.1 ▸ hc) (by decide)
  · exact absurd (hs.1 ▸ hc') (by decide)
  · exact eq_of_line hbody hbody' hend hend' hs
  · exact absurd (hs.1 ▸ hc') (by decide)
  · exact eq_of_line hbody hbody' hend hend' hs
  · exact absurd (hs.1 ▸ hc') (by decide)
  · exact eq_of_block hbody hbody' hs

theorem not_gap_of_open (hopen : Open body) : ¬Gap ('/' :: '*' :: body) u := by
  intro hgap
  rcases gap_cases hgap with ⟨c, hs, hc⟩ | ⟨b, hs, -, -⟩ | ⟨b, hs, -, -⟩ | ⟨b, hs, -⟩
  · rw [← (List.cons.inj hs).1] at hc
    exact absurd hc (by decide)
  · cases hs
  · cases hs
  · obtain rfl : body = b ++ '*' :: '/' :: u := by simpa using hs
    exact hopen ⟨b, u, by simp⟩

theorem Dangling.of_skips (h : Dangling t) (hskips : Skips t u) : Dangling u := by
  obtain ⟨body, hbody, hopen⟩ := h
  rcases ReflTransGen.total_of_right_unique gap_rightUnique hskips hbody with hu | hu
  · exact ⟨body, hu, hopen⟩
  · obtain heq | ⟨v, hgap, -⟩ := ReflTransGen.cases_head hu
    · exact ⟨body, heq ▸ .refl, hopen⟩
    · exact absurd hgap (not_gap_of_open hopen)

theorem not_dangling_nil : ¬Dangling [] := by
  rintro ⟨body, hbody, -⟩
  obtain heq | ⟨v, hgap, -⟩ := ReflTransGen.cases_head hbody
  · cases heq
  · cases hgap

theorem gap_of_block {rest : Text} (h : l.current = rest) :
    (∃ body t, rest = body ++ '*' :: '/' :: t ∧ Open body ∧ Cursor.Passes (body ++ ['*', '/']) l (skipBlock rest l) ∧
      (skipBlock rest l).current = t) ∨
    Open rest ∧ Cursor.Passes rest l (skipBlock rest l) ∧ (skipBlock rest l).current = [] := by
  fun_induction skipBlock rest l with
  | case1 l =>
    refine .inr ⟨by simp [Open], ?_, h⟩
    exact .refl l
  | case2 l c =>
    refine .inr ⟨?_, Cursor.passes_advance h, Cursor.current_advance h⟩
    intro hinfix
    have hlen := hinfix.length_le
    simp at hlen
  | case3 c d rest l hclose =>
    obtain ⟨rfl, rfl⟩ : c = '*' ∧ d = '/' := by simpa using hclose
    have hadv := Cursor.current_advance h
    refine .inl ⟨[], rest, rfl, by simp [Open], ?_, Cursor.current_advance hadv⟩
    exact (Cursor.passes_advance h).trans (Cursor.passes_advance hadv)
  | case4 c d rest l hclose ih =>
    have hopen : ∀ body : Text, Open body → (body.head? = some d ∨ body = []) → Open (c :: body) := by
      intro body hbody hhead hinfix
      rcases List.infix_cons_iff.mp hinfix with hprefix | hinfix
      · rcases hhead with hhead | rfl
        · obtain ⟨t, ht⟩ := hprefix
          cases body with
          | nil => cases hhead
          | cons x xs =>
            obtain rfl : x = d := by simpa using hhead
            simp only [List.cons_append, List.nil_append, List.cons.injEq] at ht
            simp [← ht.1, ← ht.2.1] at hclose
        · simpa using hprefix.length_le
      · exact hbody hinfix
    have hpass := Cursor.passes_advance h
    rcases ih (Cursor.current_advance h) with ⟨body, t, hrest, hbody, hskip, hcur⟩ | ⟨hbody, hskip, hcur⟩
    · refine .inl ⟨c :: body, t, by rw [hrest]; rfl, hopen body hbody ?_, hpass.trans hskip, hcur⟩
      cases body with
      | nil => exact .inr rfl
      | cons x xs =>
        rw [List.cons_append] at hrest
        exact .inl (congrArg some (List.cons.inj hrest).1.symm)
    · exact .inr ⟨hopen _ hbody (.inl rfl), hpass.trans hskip, hcur⟩

theorem skips_of_space (ht : ∀ c ∈ t, isSpace c = true) : Skips (t ++ u) u := by
  induction t with
  | nil => exact .refl
  | cons c t ih =>
    exact .head (.space (ht c (by simp))) (ih fun d hd => ht d (by simp [hd]))

theorem not_newline_takeWhile (t : Text) : '\n' ∉ t.takeWhile (· != '\n') := fun hmem => by
  simpa using List.mem_takeWhile_imp hmem

theorem endsLine_dropWhile (t : Text) : EndsLine (t.dropWhile (· != '\n')) := by
  intro c hc
  have hhead := List.head?_dropWhile_not (· != '\n') t
  rw [Option.mem_def.mp hc] at hhead
  simpa using hhead

theorem gap_of_line {c : Char} {rest : Text} (h : l.current = c :: rest) (hc : c ≠ '\n') :
    ∃ body, '\n' ∉ body ∧ rest = body ++ (l.advanceWhile (· != '\n')).current ∧
      EndsLine (l.advanceWhile (· != '\n')).current ∧ Cursor.Passes (c :: body) l (l.advanceWhile (· != '\n')) := by
  have hcur := Cursor.current_advanceWhile (· != '\n') l
  have hpass := Cursor.passes_advanceWhile (· != '\n') l
  have hne : (c != '\n') = true := by simpa using hc
  rw [h, List.dropWhile_cons_of_pos (p := (· != '\n')) hne] at hcur
  rw [h, List.takeWhile_cons_of_pos (p := (· != '\n')) hne] at hpass
  refine ⟨rest.takeWhile (· != '\n'), not_newline_takeWhile rest, ?_, ?_, hpass⟩
  · rw [hcur, List.takeWhile_append_dropWhile]
  · rw [hcur]
    exact endsLine_dropWhile rest

def Skipped (l l' : Lexer) : Prop :=
  (∃ t, Cursor.Passes t l l') ∧
    (¬Dangling l.current ∧ Skips l.current l'.current ∨ Dangling l.current ∧ l'.current = [])

theorem Skipped.of_gap {l₁ l' : Lexer} (hpass : Cursor.Passes t l l₁) (hgap : Skips l.current l₁.current)
    (h : Skipped l₁ l') : Skipped l l' := by
  obtain ⟨⟨t', hpass'⟩, h⟩ := h
  refine ⟨⟨_, hpass.trans hpass'⟩, ?_⟩
  rcases h with ⟨hclosed, hskips⟩ | ⟨⟨body, hbody, hopen⟩, hend⟩
  · exact .inl ⟨fun hdangling => hclosed (hdangling.of_skips hgap), hgap.trans hskips⟩
  · exact .inr ⟨⟨body, hgap.trans hbody, hopen⟩, hend⟩

theorem skipped_skipLoop {fuel : Nat} (hfuel : l.current.length < fuel) : Skipped l (skipLoop fuel l) := by
  induction fuel generalizing l with
  | zero => omega
  | succ fuel ih =>
    have hspaces := Cursor.passes_advanceWhile isSpace l
    have hgap : Skips l.current (l.advanceWhile isSpace).current := by
      rw [hspaces.current]
      exact skips_of_space fun c hc => List.mem_takeWhile_imp hc
    refine .of_gap hspaces hgap ?_
    have hle : (l.advanceWhile isSpace).current.length ≤ l.current.length := by
      rw [hspaces.current, List.length_append]
      omega
    rw [skipLoop]
    have hsees := Cursor.sees_advanceWhile isSpace l
    generalize l.advanceWhile isSpace = l at hle hsees ⊢
    split
    · rename_i rest hcur
      obtain ⟨body, hbody, hrest, hend, hpass⟩ := gap_of_line hcur (by decide)
      refine .of_gap hpass ?_ (ih ?_)
      · rw [hcur]
        nth_rewrite 1 [hrest]
        exact .single (.hash hbody hend)
      · have hlen := congrArg List.length hpass.current
        simp only [List.length_append, List.length_cons] at hlen
        omega
    · rename_i rest hcur
      obtain ⟨body, hbody, hrest, hend, hpass⟩ := gap_of_line hcur (by decide)
      cases body with
      | nil =>
        have hnewline := hend '/' (by rw [← List.nil_append (l.advanceWhile _).current, ← hrest]; rfl)
        cases hnewline
      | cons c body =>
        obtain ⟨rfl, hrest'⟩ : '/' = c ∧ rest = body ++ (l.advanceWhile (· != '\n')).current := by simpa using hrest
        refine .of_gap hpass ?_ (ih ?_)
        · rw [hcur]
          nth_rewrite 1 [hrest']
          exact .single (.line (fun hmem => hbody (List.mem_cons_of_mem _ hmem)) hend)
        · have hlen := congrArg List.length hpass.current
          simp only [List.length_append, List.length_cons] at hlen
          omega
    · rename_i rest hcur
      have hadv := Cursor.current_advance hcur
      have hpass := (Cursor.passes_advance hcur).trans (Cursor.passes_advance hadv)
      rcases gap_of_block (Cursor.current_advance hadv) with ⟨body, t, hrest, hopen, hskip, ht⟩ | ⟨hopen, hskip, hend⟩
      · refine .of_gap (hpass.trans hskip) ?_ (ih ?_)
        · rw [hcur, ht, hrest]
          exact .single (.block hopen)
        · have hlen := congrArg List.length (hpass.trans hskip).current
          simp only [List.length_append, List.length_cons, List.length_nil] at hlen
          omega
      · have hlast : ∀ fuel, skipLoop fuel (skipBlock rest l.advance.advance) = skipBlock rest l.advance.advance := by
          intro fuel
          cases fuel with
          | zero => rfl
          | succ fuel => simp [skipLoop, Cursor.advanceWhile, hend, Cursor.advanceBy]
        rw [hlast]
        refine ⟨⟨_, hpass.trans hskip⟩, .inr ⟨⟨rest, ?_, hopen⟩, hend⟩⟩
        rw [hcur]
    · rename_i hhash hline hblock
      refine ⟨⟨[], .refl _⟩, .inl ⟨?_, .refl⟩⟩
      rintro ⟨body, hbody, hopen⟩
      obtain heq | ⟨v, hgap, -⟩ := ReflTransGen.cases_head hbody
      · exact hblock _ heq
      · rcases gap_cases hgap with ⟨c, hs, hc⟩ | ⟨b, hs, -, -⟩ | ⟨b, hs, -, -⟩ | ⟨b, hs, -⟩
        · simp [Cursor.sees, hs, hc] at hsees
        · exact hhash _ hs
        · exact hline _ hs
        · exact hblock _ hs

theorem skipped_skipWhitespace (l : Lexer) : Skipped l (skipWhitespace l) := skipped_skipLoop (Nat.lt_succ_self _)

/-! ### One call -/

def Token.StartsAt (t : Token D) (l : Lexer) : Prop := t.position = l.position ∧ t.line = l.line ∧ t.column = l.column

inductive Lexed (l : Lexer) : Token D × Lexer → Prop
  | error {t : Token D} {l' : Lexer} {text : Text} (herror : t.type = .error) (hpass : Cursor.Passes text l l') :
      Lexed l (t, l')
  | token {t : Token D} {l' : Lexer} {text : Text} (hord : t.Ordinary) (hpass : Cursor.Passes text l l') (hne : text ≠ [])
      (hspelled : t.Spelled text) (hstart : t.StartsAt l) : Lexed l (t, l')

variable {lib : Numerals D} {l l' : Lexer} {c : Char} {rest : Text}

theorem passes_digits (l : Lexer) : Cursor.Passes (l.current.takeWhile Char.isDigit) l (l.advanceWhile Char.isDigit) :=
  Cursor.passes_advanceWhile _ l

theorem passes_scanFraction (h : scanFraction l = some l') : ∃ text, Cursor.Passes ('.' :: text) l l' := by
  unfold scanFraction at h
  split at h
  · rename_i rest hcur
    split at h
    · cases h
      exact ⟨_, (Cursor.passes_advance hcur).trans (passes_digits _)⟩
    · cases h
  · cases h

theorem passes_of_sees {p : Char → Bool} (h : l.sees p = true) :
    ∃ c rest, l.current = c :: rest ∧ p c = true ∧ Cursor.Passes [c] l l.advance := by
  unfold Cursor.sees at h
  cases hcur : l.current with
  | nil => simp [hcur] at h
  | cons c rest => exact ⟨c, rest, rfl, by simpa [hcur] using h, Cursor.passes_advance hcur⟩

theorem passes_scanSign (l : Lexer) : ∃ text, Cursor.Passes text l (scanSign l) := by
  unfold scanSign
  split
  · rename_i hsees
    obtain ⟨c, -, -, -, hpass⟩ := passes_of_sees hsees
    exact ⟨_, hpass⟩
  · exact ⟨_, .refl l⟩

theorem passes_scanExponent (h : scanExponent l = some l') : ∃ text, Cursor.Passes text l l' := by
  unfold scanExponent at h
  split at h
  · rename_i hsees
    cases h
    obtain ⟨c, -, -, -, hpass⟩ := passes_of_sees hsees
    obtain ⟨text, hsign⟩ := passes_scanSign l.advance
    exact ⟨_, hpass.trans hsign⟩
  · cases h

def startsNumber : Text → Bool
  | [] => false
  | c :: rest => c.isDigit || (c == '.' && rest.head?.any Char.isDigit)

theorem passes_scanNumber (hstart : startsNumber l.current = true) :
    (∃ l' b text, scanNumber l = .ok (l', b) ∧ Cursor.Passes text l l' ∧ text ≠ []) ∨
      ∃ l' text, scanNumber l = .error l' ∧ Cursor.Passes text l l' := by
  have hwhole := passes_digits l
  obtain ⟨text, hpass, hne⟩ : ∃ text, Cursor.Passes text l ((scanFraction (l.advanceWhile Char.isDigit)).getD
      (l.advanceWhile Char.isDigit)) ∧ text ≠ [] := by
    cases hfraction : scanFraction (l.advanceWhile Char.isDigit) with
    | some l' =>
      obtain ⟨text, hpass⟩ := passes_scanFraction hfraction
      exact ⟨_, hwhole.trans hpass, by simp⟩
    | none =>
      refine ⟨_, hwhole, fun hnil => ?_⟩
      cases hcur : l.current with
      | nil => simp [hcur, startsNumber] at hstart
      | cons c rest =>
        have hdigit : c.isDigit = false := by
          cases hc : c.isDigit with
          | false => rfl
          | true => simp [hcur, hc] at hnil
        rw [hcur, startsNumber, hdigit, Bool.false_or, Bool.and_eq_true, beq_iff_eq] at hstart
        have hnext : (l.advanceWhile Char.isDigit).current = '.' :: rest := by
          rw [Cursor.current_advanceWhile, hcur, List.dropWhile_cons_of_neg (by simp [hdigit]), hstart.1]
        simp [scanFraction, hnext, hstart.2] at hfraction
  unfold scanNumber
  dsimp only
  cases hexponent : scanExponent ((scanFraction (l.advanceWhile Char.isDigit)).getD (l.advanceWhile Char.isDigit)) with
  | none => exact .inl ⟨_, _, _, rfl, hpass, hne⟩
  | some digits =>
    obtain ⟨text', hpass'⟩ := passes_scanExponent hexponent
    dsimp only
    split
    · exact .inl ⟨_, _, _, rfl, (hpass.trans hpass').trans (passes_digits digits), by simp [hne]⟩
    · exact .inr ⟨_, _, rfl, hpass.trans hpass'⟩

theorem int64Suffix_eq (h : int64Suffix t = true) : ∃ rest, t = 'i' :: '6' :: '4' :: rest := by
  unfold int64Suffix at h
  split at h
  · exact ⟨_, rfl⟩
  · cases h

theorem lexed_lexNumber (hstart : startsNumber l.current = true) : Lexed l (lexNumber lib l) := by
  unfold lexNumber
  rcases passes_scanNumber hstart with ⟨l', b, text, hscan, hpass, hne⟩ | ⟨l', text, hscan, hpass⟩
  · rw [hscan]
    dsimp only
    split
    · rename_i hsuffix
      obtain ⟨rest, hrest⟩ := int64Suffix_eq (Bool.and_eq_true_iff.mp hsuffix).2
      have h₁ := Cursor.current_advance hrest
      have h₂ := Cursor.current_advance h₁
      have hpass' := ((hpass.trans (Cursor.passes_advance hrest)).trans (Cursor.passes_advance h₁)).trans
        (Cursor.passes_advance h₂)
      split
      · exact .error rfl hpass'
      · split
        · exact .error rfl hpass'
        · refine .token ⟨nofun, nofun⟩ hpass' (by simp) ?_ ⟨rfl, rfl, rfl⟩
          exact hpass'.between_eq.symm
    · exact .token ⟨nofun, nofun⟩ hpass hne hpass.between_eq.symm ⟨rfl, rfl, rfl⟩
  · rw [hscan]
    exact .error rfl hpass

theorem checkKeyword_cases (text : Text) : checkKeyword text = .identifier ∨ ∃ entry ∈ keywords, checkKeyword text = entry.2 := by
  unfold checkKeyword
  split
  · rename_i entry hfind
    exact .inr ⟨entry, List.mem_of_find?_eq_some hfind, rfl⟩
  · exact .inl rfl

def TokenType.Plain (type : TokenType) : Prop := type ∉ [TokenType.eof, .error, .param, .string]

instance (type : TokenType) : Decidable type.Plain := inferInstanceAs (Decidable (type ∉ _))

theorem plain_of_mem_keywords : ∀ entry ∈ keywords, entry.2.Plain := by decide

theorem plain_checkKeyword (text : Text) : (checkKeyword text).Plain := by
  rcases checkKeyword_cases text with h | ⟨entry, hentry, h⟩ <;> rw [h]
  · decide
  · exact plain_of_mem_keywords entry hentry

theorem TokenType.Plain.ordinary {t : Token D} (htype : t.type.Plain) : t.Ordinary := by
  simp only [TokenType.Plain, List.mem_cons, not_or] at htype
  exact ⟨htype.1, htype.2.1⟩

theorem TokenType.Plain.spelled {t : Token D} (htype : t.type.Plain) : t.Spelled t.text := by
  simp only [TokenType.Plain, List.mem_cons, not_or] at htype
  unfold Token.Spelled
  split
  · rename_i hparam
    exact absurd hparam htype.2.2.1
  · rename_i hstring
    exact absurd hstring htype.2.2.2.1
  · rfl

theorem lexed_lexIdentifier (hcur : l.current = c :: rest) (hc : isIdentStart c = true) : Lexed l (lexIdentifier lib l) := by
  have hpass := Cursor.passes_advanceWhile isIdentChar l
  have hchar : isIdentChar c = true := by
    simp only [isIdentStart, isIdentChar, Char.isAlphanum, Bool.or_eq_true] at hc ⊢
    rcases hc with hc | hc
    · exact .inl (.inl hc)
    · exact .inr hc
  have hne : l.current.takeWhile isIdentChar ≠ [] := by
    rw [hcur, List.takeWhile_cons_of_pos hchar]
    simp
  unfold lexIdentifier
  dsimp only
  rw [hpass.between_eq]
  split
  · have hplain : TokenType.number.Plain := by decide
    exact .token (TokenType.Plain.ordinary hplain) hpass hne (TokenType.Plain.spelled hplain) ⟨rfl, rfl, rfl⟩
  · have hplain := plain_checkKeyword (l.current.takeWhile isIdentChar)
    exact .token (TokenType.Plain.ordinary hplain) hpass hne (TokenType.Plain.spelled hplain) ⟨rfl, rfl, rfl⟩

theorem passes_scanSegments (fuel : Nat) (l : Lexer) :
    (∃ l' text, scanSegments fuel l = .ok l' ∧ Cursor.Passes text l l') ∨
      ∃ l' text, scanSegments fuel l = .error l' ∧ Cursor.Passes text l l' := by
  induction fuel generalizing l with
  | zero => exact .inl ⟨l, _, rfl, .refl l⟩
  | succ fuel ih =>
    unfold scanSegments
    split
    · rename_i rest hcur
      split
      · have hpass := (Cursor.passes_advance hcur).trans (Cursor.passes_advanceWhile isIdentChar l.advance)
        rcases ih (l.advance.advanceWhile isIdentChar) with ⟨l', text, hscan, h⟩ | ⟨l', text, hscan, h⟩
        · exact .inl ⟨l', _, hscan, hpass.trans h⟩
        · exact .inr ⟨l', _, hscan, hpass.trans h⟩
      · exact .inr ⟨l, _, rfl, .refl l⟩
    · exact .inl ⟨l, _, rfl, .refl l⟩

theorem lexed_lexVariable (hcur : l.current = '$' :: rest) : Lexed l (lexVariable lib l) := by
  have hdollar := Cursor.passes_advance hcur
  unfold lexVariable
  dsimp only
  split
  · have hname := Cursor.passes_advanceWhile isIdentChar l.advance
    rcases passes_scanSegments (l.advance.advanceWhile isIdentChar).current.length (l.advance.advanceWhile isIdentChar) with
      ⟨l', text, hscan, hpass⟩ | ⟨l', text, hscan, hpass⟩
    · rw [hscan]
      refine .token ⟨nofun, nofun⟩ (hdollar.trans (hname.trans hpass)) (by simp) ?_ ⟨rfl, rfl, rfl⟩
      exact congrArg ('$' :: ·) (hname.trans hpass).between_eq.symm
    · rw [hscan]
      exact .error rfl (hdollar.trans (hname.trans hpass))
  · exact .error rfl hdollar

theorem passes_skipString (quote : Char) (h : l.current = t) :
    ∃ text, Cursor.Passes text l (skipString quote t l) := by
  fun_induction skipString quote t l with
  | case1 l => exact ⟨_, .refl l⟩
  | case2 c l hquote => exact ⟨_, .refl l⟩
  | case3 c l hquote => exact ⟨_, Cursor.passes_advance h⟩
  | case4 c d rest l hquote => exact ⟨_, .refl l⟩
  | case5 c d rest l hquote hescape ih =>
    have hadv := Cursor.current_advance h
    obtain ⟨text, hpass⟩ := ih (Cursor.current_advance hadv)
    exact ⟨_, ((Cursor.passes_advance h).trans (Cursor.passes_advance hadv)).trans hpass⟩
  | case6 c d rest l hquote hescape ih =>
    obtain ⟨text, hpass⟩ := ih (Cursor.current_advance h)
    exact ⟨_, (Cursor.passes_advance h).trans hpass⟩

theorem lexed_lexString (hcur : l.current = c :: rest) : Lexed l (lexString lib c l) := by
  have hopen := Cursor.passes_advance hcur
  obtain ⟨text, hpass⟩ := passes_skipString c (rfl : l.advance.current = _)
  unfold lexString
  dsimp only
  split
  · rename_i hsees
    obtain ⟨q, r, -, hq, hclose⟩ := passes_of_sees hsees
    obtain rfl : q = c := beq_iff_eq.mp hq
    refine .token ⟨nofun, nofun⟩ ((hopen.trans hpass).trans hclose) (by simp) ⟨q, ?_⟩ ⟨rfl, rfl, rfl⟩
    exact congrArg (fun t => q :: (t ++ [q])) hpass.between_eq.symm
  · exact .error rfl (hopen.trans hpass)

theorem operator_plain {d : Option Char} {type : TokenType} {both : Bool} (h : operator c d = some (type, both)) :
    type.Plain ∧ (both = true → d ≠ none) := by
  unfold operator at h
  split at h <;> simp only [Option.some.injEq, Prod.mk.injEq, reduceCtorEq] at h <;> obtain ⟨rfl, rfl⟩ := h <;>
    exact ⟨by decide, nofun⟩

theorem lexed_lexOperator (hcur : l.current = c :: rest) : Lexed l (lexOperator lib c l) := by
  have hpass := Cursor.passes_advance hcur
  unfold lexOperator
  dsimp only
  split
  · exact .error rfl hpass
  · rename_i type both hop
    obtain ⟨hplain, hboth⟩ := operator_plain hop
    obtain ⟨text, hpass', hne⟩ : ∃ text, Cursor.Passes text l (if both then l.advance.advance else l.advance) ∧ text ≠ [] := by
      cases both with
      | false => exact ⟨_, hpass, by simp⟩
      | true =>
        obtain ⟨d, hd⟩ := Option.ne_none_iff_exists'.mp (hboth rfl)
        obtain ⟨rest', hrest⟩ := List.head?_eq_some_iff.mp hd
        exact ⟨_, hpass.trans (Cursor.passes_advance hrest), by simp⟩
    rw [hpass'.between_eq]
    exact .token (TokenType.Plain.ordinary hplain) hpass' hne (TokenType.Plain.spelled hplain) ⟨rfl, rfl, rfl⟩

theorem next_cases (lib : Numerals D) (l : Lexer) : ∃ l₀, Skipped l l₀ ∧
    (l₀.current = [] ∧ next lib l = (makeToken lib .eof [] l₀, l₀) ∨ l₀.current ≠ [] ∧ Lexed l₀ (next lib l)) := by
  refine ⟨skipWhitespace l, skipped_skipWhitespace l, ?_⟩
  unfold next
  dsimp only
  generalize skipWhitespace l = l₀
  cases hcur : l₀.current with
  | nil => exact .inl ⟨rfl, rfl⟩
  | cons c rest =>
    refine .inr ⟨by simp, ?_⟩
    dsimp only
    split
    · rename_i hstart
      exact lexed_lexNumber (by rw [hcur, startsNumber, hstart])
    split
    · rename_i hident
      exact lexed_lexIdentifier hcur hident
    split
    · rename_i hdollar
      exact lexed_lexVariable (by rw [hcur, beq_iff_eq.mp hdollar])
    split
    · exact lexed_lexString hcur
    · exact lexed_lexOperator hcur

/-! ### All calls -/

section
variable {source : Text} {n : Nat}

structure Call (lib : Numerals D) (source : Text) (n : Nat) (read skipped : Text) (l₀ : Lexer) : Prop where
  source_eq : source = read ++ (skipped ++ l₀.current)
  before : (calls lib source n).At read
  current : (calls lib source n).current = skipped ++ l₀.current
  behind : l₀.At (read ++ skipped)
  gap : Skipped (calls lib source n) l₀
  result : l₀.current = [] ∧ next lib (calls lib source n) = (makeToken lib .eof [] l₀, l₀) ∨
    l₀.current ≠ [] ∧ Lexed l₀ (next lib (calls lib source n))

theorem exists_call_of_at {read : Text} (hsource : source = read ++ (calls lib source n).current)
    (hat : (calls lib source n).At read) : ∃ skipped l₀, Call lib source n read skipped l₀ := by
  obtain ⟨l₀, hgap, hresult⟩ := next_cases lib (calls lib source n)
  obtain ⟨skipped, hpass⟩ := hgap.1
  exact ⟨skipped, l₀, by rw [← hpass.current]; exact hsource, hat, hpass.current, hpass.place read hat, hgap, hresult⟩

theorem exists_at (lib : Numerals D) (source : Text) (n : Nat) :
    ∃ read, source = read ++ (calls lib source n).current ∧ (calls lib source n).At read := by
  induction n with
  | zero => exact ⟨[], rfl, Cursor.at_start source⟩
  | succ n ih =>
    obtain ⟨read, hsource, hat⟩ := ih
    obtain ⟨skipped, l₀, hcall⟩ := exists_call_of_at hsource hat
    obtain ⟨text, hpass⟩ : ∃ text, Cursor.Passes text l₀ (calls lib source (n + 1)) := by
      rw [calls]
      rcases hcall.result with ⟨-, hnext⟩ | ⟨-, hlexed⟩
      · rw [hnext]
        exact ⟨_, .refl l₀⟩
      · generalize next lib (calls lib source n) = r at hlexed
        cases hlexed with
        | error _ hpass => exact ⟨_, hpass⟩
        | token _ hpass => exact ⟨_, hpass⟩
    refine ⟨read ++ skipped ++ text, ?_, hpass.place _ hcall.behind⟩
    rw [List.append_assoc, ← hpass.current, List.append_assoc]
    exact hcall.source_eq

theorem exists_call (lib : Numerals D) (source : Text) (n : Nat) : ∃ read skipped l₀, Call lib source n read skipped l₀ := by
  obtain ⟨read, hsource, hat⟩ := exists_at lib source n
  exact ⟨read, exists_call_of_at hsource hat⟩

variable {read skipped : Text} {l₀ : Lexer}

theorem Call.position (h : Call lib source n read skipped l₀) : l₀.position = (calls lib source n).position + skipped.length := by
  rw [h.behind.position, h.before.position, List.length_append]

theorem Call.take (h : Call lib source n read skipped l₀) : source.take (calls lib source n).position = read := by
  rw [h.before.position, h.source_eq, List.take_left]

theorem Call.drop (h : Call lib source n read skipped l₀) :
    source.drop (calls lib source n).position = (calls lib source n).current := by
  rw [h.before.position, h.current]
  nth_rewrite 1 [h.source_eq]
  rw [List.drop_left]

theorem Call.take_behind (h : Call lib source n read skipped l₀) : source.take l₀.position = read ++ skipped := by
  rw [h.behind.position, h.source_eq, ← List.append_assoc, List.take_left]

theorem Call.drop_behind (h : Call lib source n read skipped l₀) : source.drop l₀.position = l₀.current := by
  rw [h.behind.position]
  nth_rewrite 1 [h.source_eq]
  rw [← List.append_assoc, List.drop_left]

theorem Call.startsAt (h : Call lib source n read skipped l₀) (hne : (token lib source n).type ≠ .error) :
    (token lib source n).StartsAt l₀ := by
  rw [token] at hne ⊢
  rcases h.result with ⟨-, hnext⟩ | ⟨-, hlexed⟩
  · rw [hnext]
    exact ⟨rfl, rfl, rfl⟩
  · generalize next lib (calls lib source n) = r at hlexed hne ⊢
    cases hlexed with
    | error herror _ => exact absurd herror hne
    | token _ _ _ _ hstart => exact hstart

theorem Call.ordinary (h : Call lib source n read skipped l₀) (hord : (token lib source n).Ordinary) :
    ∃ text, text ≠ [] ∧ Cursor.Passes text l₀ (calls lib source (n + 1)) ∧ (token lib source n).Spelled text := by
  rw [token] at hord ⊢
  rw [calls]
  rcases h.result with ⟨-, hnext⟩ | ⟨-, hlexed⟩
  · rw [hnext] at hord
    exact absurd rfl hord.1
  · generalize next lib (calls lib source n) = r at hlexed hord ⊢
    cases hlexed with
    | error herror _ => exact absurd herror hord.2
    | token _ hpass hne hspelled _ => exact ⟨_, hne, hpass, hspelled⟩

theorem Call.eof (h : Call lib source n read skipped l₀) (heof : (token lib source n).type = .eof) : l₀.current = [] := by
  rcases h.result with ⟨hnil, -⟩ | ⟨-, hlexed⟩
  · exact hnil
  · rw [token] at heof
    generalize next lib (calls lib source n) = r at hlexed heof
    cases hlexed with
    | error herror _ => exact absurd (herror.symm.trans heof) (by decide)
    | token hord => exact absurd heof hord.1

theorem Call.skippedText (h : Call lib source n read skipped l₀) (hne : (token lib source n).type ≠ .error) :
    skippedText lib source n = skipped := by
  rw [Lexer.skippedText, (h.startsAt hne).1, h.take_behind, h.before.position, List.drop_left]

theorem Call.tokenText (h : Call lib source n read skipped l₀) (hord : (token lib source n).Ordinary) {text : Text}
    (hpass : Cursor.Passes text l₀ (calls lib source (n + 1))) :
    tokenText lib source n = text ∧ source.take (calls lib source (n + 1)).position = read ++ skipped ++ text := by
  have htake : source.take (calls lib source (n + 1)).position = read ++ skipped ++ text := by
    rw [(hpass.place _ h.behind).position, h.source_eq, hpass.current, ← List.append_assoc, ← List.append_assoc,
      List.take_left]
  refine ⟨?_, htake⟩
  rw [Lexer.tokenText, htake, (h.startsAt hord.2).1, h.behind.position, List.drop_left]

theorem position_lt (hord : (token lib source n).Ordinary) :
    (calls lib source n).position < (calls lib source (n + 1)).position := by
  obtain ⟨read, skipped, l₀, hcall⟩ := exists_call lib source n
  obtain ⟨text, hne, hpass, -⟩ := hcall.ordinary hord
  have hpos := List.length_pos_of_ne_nil hne
  rw [hpass.position, hcall.position]
  omega

theorem take_calls (hrun : Running lib source n) : source.take (calls lib source n).position =
    (List.range n).flatMap fun i => skippedText lib source i ++ tokenText lib source i := by
  induction n with
  | zero => rfl
  | succ n ih =>
    have hord := hrun n (Nat.lt_succ_self n)
    obtain ⟨read, skipped, l₀, hcall⟩ := exists_call lib source n
    obtain ⟨text, -, hpass, -⟩ := hcall.ordinary hord
    obtain ⟨htext, htake⟩ := hcall.tokenText hord hpass
    rw [htake, List.range_succ, List.flatMap_append, ← ih fun m hm => hrun m (Nat.lt_succ_of_lt hm), hcall.take]
    simp [hcall.skippedText hord.2, htext]

theorem exists_end (lib : Numerals D) (source : Text) :
    ∃ n, Running lib source n ∧ ¬(token lib source n).Ordinary := by
  by_contra hall
  have hord : ∀ n, Running lib source n → (token lib source n).Ordinary := fun n hn => by
    by_contra hnot
    exact hall ⟨n, hn, hnot⟩
  have hrun : ∀ n, Running lib source n ∧ n ≤ (calls lib source n).position := by
    intro n
    induction n with
    | zero => exact ⟨fun m hm => absurd hm (Nat.not_lt_zero m), Nat.zero_le _⟩
    | succ n ih =>
      refine ⟨fun m hm => ?_, ?_⟩
      · rcases Nat.lt_succ_iff_lt_or_eq.mp hm with hlt | rfl
        · exact ih.1 m hlt
        · exact hord m ih.1
      · exact Nat.succ_le_of_lt (Nat.lt_of_le_of_lt ih.2 (position_lt (hord n ih.1)))
  have hbound := (hrun (source.length + 1)).2
  obtain ⟨read, hsource, hat⟩ := exists_at lib source (source.length + 1)
  have hlen := congrArg List.length hsource
  rw [List.length_append] at hlen
  rw [hat.position] at hbound
  omega

/-- The partition law holds of exactly the sources in which no call comes to a block comment that nothing closes. -/
theorem partitioned_iff (lib : Numerals D) (source : Text) :
    Partitioned lib source ↔ ∀ n, Running lib source n → ¬Dangling (calls lib source n).current := by
  constructor
  · intro h n hrun hdangling
    obtain ⟨read, skipped, l₀, hcall⟩ := exists_call lib source n
    rcases hcall.gap.2 with ⟨hclosed, -⟩ | ⟨-, hnil⟩
    · exact hclosed hdangling
    · rcases hcall.result with ⟨-, hnext⟩ | ⟨hne, -⟩
      · have htype : (token lib source n).type = .eof := by rw [token, hnext]; rfl
        have hne : (token lib source n).type ≠ .error := by rw [htype]; decide
        have hskips := h.skipped n hrun hne
        rw [hcall.drop, (hcall.startsAt hne).1, hcall.drop_behind, hnil] at hskips
        exact not_dangling_nil (hdangling.of_skips hskips)
      · exact hne hnil
  · intro hclosed
    refine ⟨exists_end lib source, fun n hord => position_lt hord, fun n hrun hne => ?_, fun n hrun hord => ?_,
      fun n hrun => take_calls hrun, fun n hrun heof => ?_, fun n hrun hne => ?_⟩
    · obtain ⟨read, skipped, l₀, hcall⟩ := exists_call lib source n
      rw [hcall.drop, (hcall.startsAt hne).1, hcall.drop_behind]
      rcases hcall.gap.2 with ⟨-, hskips⟩ | ⟨hdangling, -⟩
      · exact hskips
      · exact absurd hdangling (hclosed n hrun)
    · obtain ⟨read, skipped, l₀, hcall⟩ := exists_call lib source n
      obtain ⟨text, -, hpass, hspelled⟩ := hcall.ordinary hord
      rw [(hcall.tokenText hord hpass).1]
      exact hspelled
    · obtain ⟨read, skipped, l₀, hcall⟩ := exists_call lib source n
      have hne : (token lib source n).type ≠ .error := by rw [heof]; decide
      have hlen := congrArg List.length hcall.source_eq
      rw [hcall.eof heof, List.append_nil] at hlen
      rw [(hcall.startsAt hne).1, hcall.behind.position, hlen]
    · obtain ⟨read, skipped, l₀, hcall⟩ := exists_call lib source n
      obtain ⟨hposition, hline, hcolumn⟩ := hcall.startsAt hne
      have hlen := congrArg List.length hcall.source_eq
      rw [← List.append_assoc, List.length_append] at hlen
      rw [hposition, hcall.take_behind, hline, hcolumn]
      exact ⟨by rw [hcall.behind.position]; omega, hcall.behind.line, hcall.behind.column⟩

end

/-- `strtod` of a text of digits, over the integral doubles. -/
def integralNumerals : Numerals Int := ⟨fun text => digitsValue text, 0, 0⟩

theorem open_comment_skipped : ¬Partitioned integralNumerals "1 /* 2".toList := by
  intro h
  have hrun : Running integralNumerals "1 /* 2".toList 1 := by
    intro m hm
    obtain rfl : m = 0 := by omega
    decide +kernel
  have hskips := h.skipped 1 hrun (by decide +kernel)
  have hbefore : "1 /* 2".toList.drop (calls integralNumerals "1 /* 2".toList 1).position = ' ' :: '/' :: '*' :: " 2".toList := by
    decide +kernel
  have hbehind : "1 /* 2".toList.drop (token integralNumerals "1 /* 2".toList 1).position = [] := by decide +kernel
  rw [hbefore, hbehind] at hskips
  have hopen : Open " 2".toList := by
    unfold Open
    decide
  have hdangling : Dangling (' ' :: '/' :: '*' :: " 2".toList) := ⟨_, .single (.space rfl), hopen⟩
  exact not_dangling_nil (hdangling.of_skips hskips)

end Cxpr.Lexer
