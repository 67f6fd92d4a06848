import Cxpr.Document.Parser

/-! How the parser cuts a source into statements when the lines of the source are known: comments that are not there are
    not stripped, a text that starts and ends in the open is not trimmed, a statement over several lines is one while its
    brace is open, and lines that are statements of their own are parsed one after the other. -/

namespace Cxpr.Document

theorem ok_bind {ε α β : Type} (a : α) (f : α → Except ε β) : (Except.ok a >>= f) = f a := rfl

structure Trimmed (s : Text) : Prop where
  head : ∀ c ∈ s.head?, isSpace c = false
  last : ∀ c ∈ s.getLast?, isSpace c = false ∧ c ≠ ';'

variable {s a b : Text} {c : Char}

theorem rdropWhile_of_last (h : ∀ c ∈ s.getLast?, isSpace c = false) : s.rdropWhile isSpace = s := by
  refine List.rdropWhile_eq_self_iff.mpr fun hne => ?_
  have hlast := h (s.getLast hne) (List.getLast?_eq_some_getLast hne)
  simp [hlast]

theorem dropWhile_of_head (h : ∀ c ∈ s.head?, isSpace c = false) : s.dropWhile isSpace = s := by
  cases s with
  | nil => rfl
  | cons c s => rw [List.dropWhile_cons_of_neg (by simp [h c rfl])]

theorem Trimmed.trim_eq (h : Trimmed s) : trim s = s := by
  have hsemicolon : (s.getLast? == some ';') = false := by
    cases hlast : s.getLast? with
    | none => rfl
    | some c =>
      have := (h.last c hlast).2
      simpa using this
  rw [trim, dropWhile_of_head h.head, rdropWhile_of_last fun c hc => (h.last c hc).1]
  simp only [hsemicolon]
  rfl

theorem trim_cons_space (h : isSpace c = true) (s : Text) : trim (c :: s) = trim s := by
  simp [trim, h]

theorem trim_concat_space (h : isSpace c = true) (s : Text) : trim (s ++ [c]) = trim s := by
  have hdrop : ((s ++ [c]).dropWhile isSpace).rdropWhile isSpace = (s.dropWhile isSpace).rdropWhile isSpace := by
    rw [List.dropWhile_append]
    split
    · rename_i hempty
      rw [List.isEmpty_iff.mp hempty]
      simp [h]
    · exact List.rdropWhile_concat_pos _ _ c h
  simp only [trim, hdrop]

def stripEnd : Strip → Text → Strip
  | s, [] => s
  | .line, c :: rest => stripEnd (if c == '\n' then .code else .line) rest
  | .block, '*' :: '/' :: rest => stripEnd .code rest
  | .block, _ :: rest => stripEnd .block rest
  | .quote q, '\\' :: _ :: rest => stripEnd (.quote q) rest
  | .quote q, c :: rest => stripEnd (if c == q then .code else .quote q) rest
  | .code, '/' :: '/' :: rest => stripEnd .line rest
  | .code, '/' :: '*' :: rest => stripEnd .block rest
  | .code, c :: rest =>
    stripEnd (if c == '"' || c == '\'' then .quote c else if c == '#' then .line else .code) rest

def uncommented (s : Text) : Bool := stripFrom .code s == s && stripEnd .code s == .code

def startsNoComment (s : Text) : Prop := ∀ c ∈ s.head?, c ≠ '/' ∧ c ≠ '*'

/-- No comment starts with the last character of a text and the first one behind it. -/
def Apart (a b : Text) : Prop := ∀ c ∈ a.getLast?, c = '/' → ∀ d ∈ b.head?, d ≠ '/' ∧ d ≠ '*'

theorem Apart.tail (h : Apart (c :: a) b) : Apart a b := by
  intro d hd
  refine h d ?_
  cases a with
  | nil => cases hd
  | cons e a => rwa [List.getLast?_cons_cons]

theorem apart_of_startsNoComment (a : Text) (h : startsNoComment b) : Apart a b := fun _ _ _ => h

theorem no_pair_append {c x y : Char} {rest b : Text} (h : ∀ r, c = x → rest = y :: r → False)
    (hb : rest = [] → c = x → ∀ d ∈ b.head?, d ≠ y) : ∀ r, c = x → rest ++ b = y :: r → False := by
  intro r hc heq
  cases rest with
  | nil =>
    rw [List.nil_append] at heq
    exact hb rfl hc y (by simp [heq]) rfl
  | cons d rest =>
    rw [List.cons_append, List.cons.injEq] at heq
    exact h rest hc (by rw [heq.1])

theorem stripFrom_append_of_apart {st : Strip} (hst : st ≠ .quote '\\') (hend : stripEnd st a = .code)
    (hb : Apart a b) :
    stripFrom st (a ++ b) = stripFrom st a ++ stripFrom .code b ∧ stripEnd st (a ++ b) = stripEnd .code b := by
  fun_induction stripEnd st a with
  | case1 st =>
    subst hend
    exact ⟨rfl, rfl⟩
  | case2 c rest ih =>
    obtain ⟨hstrip, hstate⟩ := ih (by split <;> simp) hend hb.tail
    refine ⟨?_, hstate⟩
    rw [List.cons_append, stripFrom, stripFrom]
    split at hstrip <;> simp_all
  | case3 rest ih =>
    obtain ⟨hstrip, hstate⟩ := ih (by simp) hend hb.tail.tail
    exact ⟨by rw [List.cons_append, List.cons_append, stripFrom, stripFrom, hstrip]; rfl, hstate⟩
  | case4 c rest hne ih =>
    obtain ⟨hstrip, hstate⟩ := ih hst hend hb.tail
    have hne' := @no_pair_append c '*' '/' rest b hne fun hnil _ => by
      -- a comment that is open at the end is no code
      rw [hnil] at hend
      cases hend
    rw [List.cons_append, stripFrom.eq_4 _ _ hne', stripFrom.eq_4 _ _ hne, stripEnd.eq_4 _ _ hne', hstrip]
    exact ⟨rfl, hstate⟩
  | case5 q c rest ih =>
    obtain ⟨hstrip, hstate⟩ := ih hst hend hb.tail.tail
    exact ⟨by rw [List.cons_append, List.cons_append, stripFrom, stripFrom, hstrip]; rfl, hstate⟩
  | case6 q c rest hne ih =>
    have hnext : (if (c == q) = true then Strip.code else Strip.quote q) ≠ .quote '\\' := by
      split
      · simp
      · exact hst
    obtain ⟨hstrip, hstate⟩ := ih hnext hend hb.tail
    have hne' : ∀ d r, c = '\\' → rest ++ b = d :: r → False := by
      intro d r hc heq
      cases rest with
      | nil =>
        -- a backslash at the end leaves the string open
        rw [stripEnd] at hend
        split at hend
        · rename_i hq
          exact hst (by rw [← beq_iff_eq.mp hq, hc])
        · cases hend
      | cons e rest => exact hne e rest hc rfl
    rw [List.cons_append, stripFrom.eq_6 _ _ _ hne', stripFrom.eq_6 _ _ _ hne, stripEnd.eq_6 _ _ _ hne', hstrip]
    exact ⟨rfl, hstate⟩
  | case7 rest ih =>
    obtain ⟨hstrip, hstate⟩ := ih (by simp) hend hb.tail.tail
    exact ⟨by rw [List.cons_append, List.cons_append, stripFrom, stripFrom, hstrip]; rfl, hstate⟩
  | case8 rest ih =>
    obtain ⟨hstrip, hstate⟩ := ih (by simp) hend hb.tail.tail
    exact ⟨by rw [List.cons_append, List.cons_append, stripFrom, stripFrom, hstrip]; rfl, hstate⟩
  | case9 c rest hslash hstar ih =>
    have hnext : (if (c == '"' || c == '\'') = true then Strip.quote c
        else if (c == '#') = true then Strip.line else Strip.code) ≠ .quote '\\' := by
      split
      · rename_i hquote
        rintro h
        cases h
        cases hquote
      · split <;> simp
    obtain ⟨hstrip, hstate⟩ := ih hnext hend hb.tail
    have hlast : rest = [] → c = '/' → ∀ d ∈ b.head?, d ≠ '/' ∧ d ≠ '*' := by
      rintro rfl hc
      exact hb c rfl hc
    have hslash' := no_pair_append hslash fun hnil hc d hd => (hlast hnil hc d hd).1
    have hstar' := no_pair_append hstar fun hnil hc d hd => (hlast hnil hc d hd).2
    rw [List.cons_append, stripFrom.eq_9 _ _ hslash' hstar', stripFrom.eq_9 _ _ hslash hstar,
      stripEnd.eq_9 _ _ hslash' hstar']
    refine ⟨?_, hstate⟩
    split
    · simp_all
    · split <;> simp_all

theorem stripFrom_append {st : Strip} (hst : st ≠ .quote '\\') (hend : stripEnd st a = .code)
    (hb : startsNoComment b) :
    stripFrom st (a ++ b) = stripFrom st a ++ stripFrom .code b ∧ stripEnd st (a ++ b) = stripEnd .code b :=
  stripFrom_append_of_apart hst hend (apart_of_startsNoComment a hb)

theorem uncommented_append (ha : uncommented a = true) (hb : uncommented b = true)
    (hstart : startsNoComment b) : uncommented (a ++ b) = true := by
  simp only [uncommented, Bool.and_eq_true, beq_iff_eq] at ha hb ⊢
  obtain ⟨hstrip, hstate⟩ := stripFrom_append (by simp) ha.2 hstart
  exact ⟨by rw [hstrip, ha.1, hb.1], hstate.trans hb.2⟩

theorem stripComments_of_uncommented (h : uncommented s = true) : stripComments s = s := by
  simp only [uncommented, Bool.and_eq_true, beq_iff_eq] at h
  exact h.1

/-! ### Statements -/

namespace Parser
variable {D : Type} (p : Parser D)

structure Statement (l : Text) : Prop where
  trimmed : Trimmed l
  nonblank : blankLine l = false

variable {l : Text} {fuel : Nat} {cut : Cut D} {ls : List Text}

theorem Statement.not_indented (h : Statement l) : l.head?.any isSpace = false := by
  cases hhead : l.head? with
  | none => rfl
  | some c => exact h.trimmed.head c hhead

def parseLines (fuel : Nat) : Nat → List Text → Parsed (List (Node D))
  | _, [] => return []
  | offset, l :: ls => do
    let nodes ← p.parseHostStatement fuel l offset (offset + l.length)
    return nodes ++ (← parseLines fuel (offset + l.length + 1) ls)

variable {p}

theorem readLine_inside {start o : Nat} (hdepth : 0 < cut.depth)
    (hcurrent : cut.current = some o) (hblank : blankLine (trim l) = false) :
    p.readLine fuel cut (start, l) = .ok { cut with depth := cut.depth + braceDelta (trim l) } := by
  simp [readLine, hblank, Int.not_le.mpr hdepth, hcurrent]

theorem readLine_statement {start : Nat} (hdepth : cut.depth ≤ 0)
    (hl : Statement l) :
    p.readLine fuel cut (start, l) = (p.flush fuel cut (start - 1)).map fun cut =>
      { cut with current := cut.current <|> some start, depth := cut.depth + braceDelta l } := by
  simp [readLine, hl.trimmed.trim_eq, hl.nonblank, hdepth, hl.not_indented]
  cases p.flush fuel cut (start - 1) <;> rfl

theorem Statement.ne_nil (h : Statement l) : l ≠ [] := by
  rintro rfl
  exact absurd h.nonblank (by decide)

theorem flush_some {o stop : Nat} (hcurrent : cut.current = some o)
    (hslice : (p.source.drop o).take (stop - o) = l) :
    p.flush fuel cut stop = (p.parseHostStatement fuel l o stop).map fun nodes =>
      { cut with current := none, nodes := cut.nodes ++ nodes } := by
  simp only [flush, hcurrent, hslice]
  cases p.parseHostStatement fuel l o stop <;> rfl

theorem foldlM_readLine (fuel : Nat) (hls : ∀ l ∈ ls, Statement l ∧ braceDelta l = 0) :
    ∀ {o : Nat} {l : Text} (nodes : List (Node D)), l ≠ [] → p.source.drop o = ['\n'].intercalate (l :: ls) →
      ((withOffsets (o + l.length + 1) ls).foldlM (p.readLine fuel) ⟨some o, 0, nodes⟩ >>= fun cut =>
          p.flush fuel cut p.source.length).map (·.nodes) =
        (p.parseLines fuel o (l :: ls)).map (nodes ++ ·) := by
  induction ls with
  | nil =>
    intro o l nodes hl hsource
    rw [List.intercalate_singleton] at hsource
    have hlength : p.source.length - o = l.length := by rw [← hsource, List.length_drop]
    have hstop : p.source.length = o + l.length := by
      have := List.length_pos_iff.mpr hl
      omega
    have hslice : (p.source.drop o).take (p.source.length - o) = l := by rw [hsource, hlength, List.take_length]
    show (p.flush fuel ⟨some o, 0, nodes⟩ p.source.length).map _ = _
    rw [flush_some rfl hslice, parseLines, hstop]
    cases p.parseHostStatement fuel l o (o + l.length) with
    | error e => rfl
    | ok ns =>
      show Except.ok (nodes ++ ns) = Except.ok (nodes ++ (ns ++ []))
      rw [List.append_nil]
  | cons l' ls ih =>
    intro o l nodes hl hsource
    have hslice : (p.source.drop o).take (o + l.length + 1 - 1 - o) = l := by
      rw [hsource, List.intercalate_cons_cons]
      have hlength : o + l.length + 1 - 1 - o = l.length := by omega
      rw [hlength, List.append_assoc, List.take_left]
    have hnext : p.source.drop (o + l.length + 1) = ['\n'].intercalate (l' :: ls) := by
      rw [Nat.add_assoc, ← List.drop_drop, hsource, List.intercalate_cons_cons]
      have hlength : (l ++ ['\n']).length = l.length + 1 := by simp
      rw [← hlength, List.drop_left]
    obtain ⟨hl', hdelta⟩ := hls l' (by simp)
    rw [withOffsets, List.foldlM_cons, readLine_statement (Int.le_refl 0) hl', flush_some rfl hslice, parseLines,
      Nat.add_sub_cancel]
    cases p.parseHostStatement fuel l o (o + l.length) with
    | error e => rfl
    | ok ns =>
      have hrest := ih (fun l hl => hls l (by simp [hl])) (nodes ++ ns) hl'.ne_nil hnext
      show ((List.foldlM (p.readLine fuel) ⟨some (o + l.length + 1), 0 + braceDelta l', nodes ++ ns⟩ _) >>= _).map _ = _
      rw [hdelta]
      refine hrest.trans ?_
      cases p.parseLines fuel (o + l.length + 1) (l' :: ls) with
      | error e => rfl
      | ok rest =>
        show Except.ok (nodes ++ ns ++ rest) = Except.ok (nodes ++ (ns ++ rest))
        rw [List.append_assoc]

theorem parseDocument_children : p.parseDocument.map (·.children) =
    ((lines p.source).foldlM (p.readLine (p.source.length + 1)) {} >>= fun cut =>
      p.flush (p.source.length + 1) cut p.source.length).map (·.nodes) := by
  unfold parseDocument
  dsimp only
  cases (lines p.source).foldlM (p.readLine (p.source.length + 1)) {} with
  | error e => rfl
  | ok cut =>
    rw [ok_bind, ok_bind]
    cases p.flush (p.source.length + 1) cut p.source.length <;> rfl

theorem lines_intercalate (hls : ∀ l ∈ ls, '\n' ∉ l) (hne : ls ≠ [])
    (hsource : p.source = ['\n'].intercalate ls) : lines p.source = withOffsets 0 ls := by
  rw [lines, hsource, List.splitOn_intercalate '\n' hls hne]

theorem withOffsets_append (offset : Nat) (xs ys : List Text) :
    withOffsets offset (xs ++ ys) = withOffsets offset xs ++ withOffsets (offset + (xs.map (·.length + 1)).sum) ys := by
  induction xs generalizing offset with
  | nil => simp [withOffsets]
  | cons x xs ih =>
    rw [List.cons_append, withOffsets, withOffsets, ih, List.cons_append, List.map_cons, List.sum_cons]
    congr 3
    omega

theorem readLine_first (hl : Statement l) :
    p.readLine fuel {} (0, l) = .ok ⟨some 0, braceDelta l, []⟩ := by
  rw [readLine_statement (Int.le_refl 0) hl]
  show Except.ok (⟨some 0, 0 + braceDelta l, []⟩ : Cut D) = _
  rw [Int.zero_add]

theorem parseDocument_lines (hls : ∀ m ∈ l :: ls, Statement m ∧ braceDelta m = 0)
    (hlines : ∀ m ∈ l :: ls, '\n' ∉ m) (hsource : p.source = ['\n'].intercalate (l :: ls)) :
    p.parseDocument.map (·.children) = p.parseLines (p.source.length + 1) 0 (l :: ls) := by
  obtain ⟨hl, hdelta⟩ := hls l (by simp)
  have hfold := foldlM_readLine (p.source.length + 1) (fun m hm => hls m (by simp [hm])) (o := 0) [] hl.ne_nil hsource
  rw [parseDocument_children, lines_intercalate hlines (by simp) hsource, withOffsets, List.foldlM_cons,
    readLine_first hl, hdelta]
  refine hfold.trans ?_
  cases p.parseLines (p.source.length + 1) 0 (l :: ls) <;> rfl

theorem parseDocument_line (hl : Statement p.source) (hline : '\n' ∉ p.source) :
    p.parseDocument.map (·.children) = p.parseHostStatement (p.source.length + 1) p.source 0 p.source.length := by
  have hlines : lines p.source = [(0, p.source)] := by rw [lines, List.splitOn_eq_singleton hline]; rfl
  have hwhole : (p.source.drop 0).take (p.source.length - 0) = p.source := by simp
  rw [parseDocument_children, hlines, List.foldlM_cons, readLine_first hl, ok_bind]
  show (p.flush (p.source.length + 1) ⟨some 0, braceDelta p.source, []⟩ p.source.length).map _ = _
  rw [flush_some rfl hwhole]
  cases p.parseHostStatement (p.source.length + 1) p.source 0 p.source.length <;> rfl

theorem foldlM_readLine_inside (fuel : Nat) (hls : ∀ l ∈ ls, Statement l ∧ braceDelta l = 0) (hdepth : 0 < cut.depth) {o : Nat} (hcurrent : cut.current = some o) (offset : Nat) :
    (withOffsets offset ls).foldlM (p.readLine fuel) cut = .ok cut := by
  induction ls generalizing offset with
  | nil => rfl
  | cons l ls ih =>
    obtain ⟨hl, hdelta⟩ := hls l (by simp)
    have hline : p.readLine fuel cut (offset, l) = .ok cut := by
      rw [readLine_inside hdepth hcurrent (by rw [hl.trimmed.trim_eq, hl.nonblank]), hl.trimmed.trim_eq, hdelta,
        Int.add_zero]
    rw [withOffsets, List.foldlM_cons, hline, ok_bind]
    exact ih (fun m hm => hls m (by simp [hm])) _

theorem parseDocument_block (hl : Statement l) (hopen : braceDelta l = 1)
    (hls : ∀ m ∈ ls, Statement m ∧ braceDelta m = 0) (hlines : ∀ m ∈ l :: ls, '\n' ∉ m)
    (hsource : p.source = ['\n'].intercalate (l :: (ls ++ [['}']]))) :
    p.parseDocument.map (·.children) = p.parseHostStatement (p.source.length + 1) p.source 0 p.source.length := by
  have hbrace : ∀ m ∈ l :: (ls ++ [['}']]), '\n' ∉ m := by
    intro m hm
    rcases List.mem_cons.mp hm with rfl | hm
    · exact hlines m (by simp)
    · rcases List.mem_append.mp hm with hm | hm
      · exact hlines m (by simp [hm])
      · obtain rfl := List.mem_singleton.mp hm
        decide
  have hclose : ∀ offset, p.readLine (p.source.length + 1) ⟨some 0, 1, []⟩ (offset, ['}']) = .ok ⟨some 0, 0, []⟩ :=
    fun offset => readLine_inside Int.one_pos rfl (by decide)
  have hwhole : (p.source.drop 0).take (p.source.length - 0) = p.source := by simp
  rw [parseDocument_children, lines_intercalate hbrace (by simp) hsource, withOffsets, List.foldlM_cons, readLine_first hl,
    hopen, ok_bind, withOffsets_append, List.foldlM_append, foldlM_readLine_inside _ hls Int.one_pos rfl, ok_bind,
    withOffsets, List.foldlM_cons, hclose, ok_bind]
  show (p.flush (p.source.length + 1) ⟨some 0, 0, []⟩ p.source.length).map _ = _
  rw [flush_some rfl hwhole]
  cases p.parseHostStatement (p.source.length + 1) p.source 0 p.source.length <;> rfl

end Parser
end Cxpr.Document
