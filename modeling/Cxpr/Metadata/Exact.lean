import Cxpr.Metadata.Lookup

/-! What the accessors of metadata return at a path of a body, and the numbers that they read there. -/

namespace Cxpr.Metadata
open Document

section
variable {top : Bool} {s value after : Text}

theorem valueEnd_of_closed (h : Closed true value) (hafter : after = [] ∨ ∃ c s, after = c :: s ∧ endsValue {} c = true) :
    valueEnd none (value ++ after) = after := by
  rw [valueEnd, scan_closed stops_endsValue h (by simp [Beyond]) rfl rfl (.inl rfl)]
  rcases hafter with rfl | ⟨c, s, rfl, hc⟩
  · rfl
  · exact scan_stop hc

theorem valueText_of_closed (h : Closed true value) (hafter : after = [] ∨ ∃ c s, after = c :: s ∧ endsValue {} c = true) :
    valueText (value ++ after) = value := by
  rw [valueText, valueEnd_of_closed h hafter, List.length_append, Nat.add_sub_cancel]
  exact List.take_left' rfl

theorem Closed.first_separator (h : Closed top s) :
    Closed true s ∨ ∃ s₁ c s₂, s = s₁ ++ c :: s₂ ∧ Closed true s₁ ∧ (c = ',' ∨ c = '\n') := by
  induction h with
  | nil => exact .inl .nil
  | @char top c s hc _ _ ih =>
    by_cases hsep : c = ',' ∨ c = '\n'
    · exact .inr ⟨[], c, s, rfl, .nil, hsep⟩
    · have htop : true = true → c ≠ ',' ∧ c ≠ '\n' := fun _ => not_or.mp hsep
      rcases ih with ih | ⟨s₁, d, s₂, rfl, hs, hd⟩
      · exact .inl (.char hc htop ih)
      · exact .inr ⟨c :: s₁, d, s₂, rfl, .char hc htop hs, hd⟩
  | @quoted top q body s hq hbody _ ih =>
    rcases ih with ih | ⟨s₁, d, s₂, rfl, hs, hd⟩
    · exact .inl (.quoted hq hbody ih)
    · exact .inr ⟨q :: (body ++ q :: s₁), d, s₂, by simp, .quoted hq hbody hs, hd⟩
  | @bracket top o c body s ho hbody _ _ ih =>
    rcases ih with ih | ⟨s₁, d, s₂, rfl, hs, hd⟩
    · exact .inl (.bracket ho hbody ih)
    · exact .inr ⟨o :: (body ++ c :: s₁), d, s₂, by simp, .bracket ho hbody hs, hd⟩

theorem valueText_iff (h : Closed false value) (hafter : after = [] ∨ ∃ c s, after = c :: s ∧ endsValue {} c = true) :
    valueText (value ++ after) = value ↔ Closed true value := by
  refine ⟨fun htext => ?_, fun hclosed => valueText_of_closed hclosed hafter⟩
  rcases h.first_separator with hclosed | ⟨s₁, c, s₂, rfl, hs, hc⟩
  · exact hclosed
  · have hstop : endsValue {} c = true := by
      rcases hc with rfl | rfl <;> rfl
    rw [List.append_assoc, List.cons_append, valueText_of_closed hs (.inr ⟨c, s₂ ++ after, rfl, hstop⟩)] at htext
    have hlen := congrArg List.length htext
    simp at hlen

end

/-! ### Numbers -/

def trimmed (text : Text) : Text := (text.dropWhile isSpace).rdropWhile isSpace

def LoneQuote (text : Text) : Prop := ∃ q, (q = '"' ∨ q = '\'') ∧ trimmed text = [q]

def unquoted (text : Text) : Text :=
  let s := trimmed text
  if 1 < s.length ∧ (s.head? = some '"' ∧ s.getLast? = some '"' ∨ s.head? = some '\'' ∧ s.getLast? = some '\'') then
    s.tail.dropLast
  else s

section
variable {D : Type} (strtod : Text → Option (D × Text))

def asNumber (text : Text) : Option D :=
  (strtod (unquoted text)).bind fun (value, rest) => if (rest.dropWhile isSpace).isEmpty then some value else none

def asNumbers (text : Text) : Option (List D) := (listItems text).mapM (asNumber strtod)

def Overruns (items : List Text) : Prop :=
  ∃ before item after, items = before ++ item :: after ∧ (∀ t ∈ before, (asNumber strtod t).isSome = true) ∧ LoneQuote item

variable {strtod}

variable {text : Text}

theorem dupTrimmed_of_loneQuote (h : LoneQuote text) : dupTrimmed text = .error .overrun := by
  obtain ⟨q, hq, htext⟩ := h
  unfold dupTrimmed
  rw [show (text.dropWhile isSpace).rdropWhile isSpace = [q] from htext]
  rcases hq with rfl | rfl <;> rfl

theorem dupTrimmed_of_not_loneQuote (h : ¬LoneQuote text) : dupTrimmed text = .ok (unquoted text) := by
  have hone : ∀ q, (q = '"' ∨ q = '\'') → (trimmed text).head? = some q → (trimmed text).length ≠ 1 := by
    intro q hq hhead hlen
    obtain ⟨c, hc⟩ := List.length_eq_one_iff.mp hlen
    rw [hc] at hhead
    cases hhead
    exact h ⟨q, hq, hc⟩
  have hpos : ∀ q, (trimmed text).head? = some q → 0 < (trimmed text).length := by
    intro q hhead
    refine List.length_pos_iff.mpr fun hnil => ?_
    rw [hnil] at hhead
    cases hhead
  unfold dupTrimmed unquoted
  rw [show (text.dropWhile isSpace).rdropWhile isSpace = trimmed text from rfl]
  by_cases hquotes : (trimmed text).head? = some '"' ∧ (trimmed text).getLast? = some '"' ∨
      (trimmed text).head? = some '\'' ∧ (trimmed text).getLast? = some '\''
  · have hlen : 1 < (trimmed text).length := by
      rcases hquotes with ⟨hhead, -⟩ | ⟨hhead, -⟩
      · have := hone _ (.inl rfl) hhead
        have := hpos _ hhead
        omega
      · have := hone _ (.inr rfl) hhead
        have := hpos _ hhead
        omega
    dsimp only
    rw [if_pos (by simpa using hquotes), if_neg (by omega), if_pos ⟨hlen, hquotes⟩]
  · dsimp only
    rw [if_neg (by simpa using hquotes), if_neg fun h => hquotes h.2]

theorem parseDoubleToken_of_loneQuote (h : LoneQuote text) :
    parseDoubleToken strtod text = .error .overrun := by
  rw [parseDoubleToken, dupTrimmed_of_loneQuote h]
  rfl

theorem parseDoubleToken_of_not_loneQuote (h : ¬LoneQuote text) :
    parseDoubleToken strtod text = .ok (asNumber strtod text) := by
  rw [parseDoubleToken, dupTrimmed_of_not_loneQuote h]
  rfl

theorem readItems_of_not_overruns {items : List Text} (h : ¬Overruns strtod items) :
    readItems strtod items = .ok (items.mapM (asNumber strtod)) := by
  induction items with
  | nil => rfl
  | cons item items ih =>
    have hitem : ¬LoneQuote item := fun hlone => h ⟨[], item, items, rfl, by simp, hlone⟩
    rw [readItems, parseDoubleToken_of_not_loneQuote hitem, List.mapM_cons]
    cases hnumber : asNumber strtod item with
    | none => rfl
    | some value =>
      have hrest : ¬Overruns strtod items := by
        rintro ⟨before, lone, after, rfl, hbefore, hlone⟩
        refine h ⟨item :: before, lone, after, rfl, List.forall_mem_cons.mpr ⟨?_, hbefore⟩, hlone⟩
        rw [hnumber]
        rfl
      dsimp only [bind, Except.bind]
      rw [ih hrest]
      cases items.mapM (asNumber strtod) <;> rfl

theorem readItems_of_overruns {items : List Text} (h : Overruns strtod items) : readItems strtod items = .error .overrun := by
  obtain ⟨before, item, after, rfl, hbefore, hlone⟩ := h
  induction before with
  | nil =>
    rw [List.nil_append, readItems, parseDoubleToken_of_loneQuote hlone]
    rfl
  | cons t before ih =>
    obtain ⟨ht, hbefore⟩ := List.forall_mem_cons.mp hbefore
    obtain ⟨v, hv⟩ := Option.isSome_iff_exists.mp ht
    rw [List.cons_append, readItems]
    by_cases hquote : LoneQuote t
    · rw [parseDoubleToken_of_loneQuote hquote]
      rfl
    · rw [parseDoubleToken_of_not_loneQuote hquote, hv]
      dsimp only [bind, Except.bind]
      rw [ih hbefore]

theorem Closed.not_loneQuote {top : Bool} {s : Text} (h : Closed top s) : ¬LoneQuote s := by
  rintro ⟨q, hq, htext⟩
  have hlist : s = s.takeWhile isSpace ++ q :: (s.dropWhile isSpace).rtakeWhile isSpace := by
    have hback := @List.rdropWhile_append_rtakeWhile Char isSpace (s.dropWhile isSpace)
    rw [show (s.dropWhile isSpace).rdropWhile isSpace = [q] from htext] at hback
    calc s = s.takeWhile isSpace ++ s.dropWhile isSpace := List.takeWhile_append_dropWhile.symm
      _ = _ := by rw [← List.singleton_append, hback]
  have hspaces : ∀ c ∈ s.takeWhile isSpace, isSpace c = true := fun c => List.mem_takeWhile_imp
  have hspaces' : ∀ c ∈ (s.dropWhile isSpace).rtakeWhile isSpace, isSpace c = true := fun c => List.mem_rtakeWhile_imp
  have hquote : isSpace q = false ∧ plain q = false := by
    rcases hq with rfl | rfl <;> decide
  generalize s.takeWhile isSpace = before at hlist hspaces
  generalize (s.dropWhile isSpace).rtakeWhile isSpace = after at hlist hspaces'
  clear htext
  induction h generalizing before with
  | nil => simp at hlist
  | char hc _ _ ih =>
    cases before with
    | nil =>
      cases hlist
      rw [hquote.2] at hc
      cases hc
    | cons d before =>
      exact ih before (fun c hc => hspaces c (List.mem_cons_of_mem d hc)) (List.cons.inj hlist).2
  | @quoted top q' body s hq' _ _ ih =>
    cases before with
    | nil =>
      cases hlist
      have hspace := hspaces' q (by simp)
      rw [hquote.1] at hspace
      cases hspace
    | cons d before =>
      have hspace := hspaces d List.mem_cons_self
      obtain ⟨rfl, -⟩ := List.cons.inj hlist
      rcases hq' with rfl | rfl <;> cases hspace
  | @bracket top o c body s ho _ _ _ _ =>
    have hopen : isSpace o = false ∧ o ≠ q := by
      simp only [brackets, List.mem_cons, Prod.mk.injEq, List.not_mem_nil, or_false] at ho
      rcases hq with rfl | rfl <;> rcases ho with ⟨rfl, -⟩ | ⟨rfl, -⟩ | ⟨rfl, -⟩ <;> decide
    cases before with
    | nil => exact hopen.2 (List.cons.inj hlist).1
    | cons d before =>
      have hspace := hspaces d List.mem_cons_self
      obtain ⟨rfl, -⟩ := List.cons.inj hlist
      rw [hopen.1] at hspace
      cases hspace

end

def pathText (path : List Text) : Text := ['.'].intercalate path

section
variable {D : Type} {strtod : Text → Option (D × Text)} {lead rest : Text} {limit : Option Nat} {b : Body} {item : Item}
  {path : List Text}

theorem locate_fits (hb : b.Wellformed) (hrest : Ends limit rest) (h : b.locate rest path = some item) :
    item.Fits ∧ item.hasValue = true := by
  induction path generalizing b rest limit with
  | nil => cases h
  | cons k path ih =>
    cases path with
    | nil =>
      obtain ⟨hget, hvalue⟩ := Option.filter_eq_some_iff.mp h
      exact ⟨hb.fits hrest hget, hvalue⟩
    | cons k' path =>
      rw [Body.locate] at h
      cases hget : b.get k rest with
      | none =>
        rw [hget] at h
        cases h
      | some outer =>
        rw [hget] at h
        cases outer with
        | bare => cases h
        | field value after => cases h
        | block lead body after =>
          obtain ⟨-, hbody, hafter⟩ := hb.fits hrest hget
          exact @ih after (some after.length) body hbody (.inr ⟨rfl, hafter⟩) h

theorem Item.Fits.closed (h : item.Fits) (hvalue : item.hasValue = true) : Closed false item.value ∧
    (item.after = [] ∨ ∃ c s, item.after = c :: s ∧ endsValue {} c = true) := by
  cases item with
  | bare => cases hvalue
  | field value after => exact ⟨h.1.closed.deeper, h.2⟩
  | block lead body after =>
    obtain ⟨hlead, hbody, behind, rfl⟩ := h
    have htext := hbody.dropWhile (.inl ⟨rfl, rfl⟩)
    rw [List.append_nil] at htext
    refine ⟨?_, .inr ⟨'}', behind, rfl, rfl⟩⟩
    rw [Item.value, dropWhile_append_of_head htext]
    exact (closed_gaps fun c hc => hlead c ((List.dropWhile_suffix isSpace).subset hc)).append hbody.closed

theorem fieldValue_body (hlead : ∀ c ∈ lead, gap c = true) (hb : b.Wellformed) (hpath : ∀ k ∈ path, IsKey k) :
    fieldValue (lead ++ b.text) (pathText path) = (b.locate [] path).map fun item => item.value ++ item.after := by
  cases path with
  | nil => rfl
  | cons k path =>
    have hdot : ∀ key ∈ k :: path, '.' ∉ key := by
      intro key hkey hdot
      exact Bool.noConfusion ((hpath key hkey).2 '.' hdot)
    have hdescend := @descend_body none lead [] b _ hpath hb hlead (.inl ⟨rfl, rfl⟩)
    rw [List.append_nil] at hdescend
    rw [fieldValue, pathText, List.splitOn_intercalate '.' hdot (List.cons_ne_nil k path), hdescend]

variable (strtod) in
/-- At a path the accessors return the value of the entry with exactly that path, and the numbers of its text. -/
structure Exact (body : Text) (b : Body) (path : List Text) : Prop where
  value : fieldValue body (pathText path) = (b.locate [] path).map fun item => item.value ++ item.after
  text : fieldText body (pathText path) = (b.locate [] path).map Item.value
  number : fieldNumber strtod body (pathText path) = .ok ((b.locate [] path).bind fun item => asNumber strtod item.value)
  numberList :
    fieldNumberList strtod body (pathText path) = .ok ((b.locate [] path).bind fun item => asNumbers strtod item.value)

/-- The accessors are exact at a path unless there is a block of several entries, or a list that is cut within a string into
    an item of one quote. -/
theorem exact_iff (hlead : ∀ c ∈ lead, gap c = true) (hb : b.Wellformed) (hpath : ∀ k ∈ path, IsKey k) :
    Exact strtod (lead ++ b.text) b path ↔
      ∀ item ∈ b.locate [] path, Closed true item.value ∧ ¬Overruns strtod (listItems item.value) := by
  have hvalue := fieldValue_body hlead hb hpath
  cases hitem : b.locate [] path with
  | none =>
    rw [hitem] at hvalue
    have htext : fieldText (lead ++ b.text) (pathText path) = none := by rw [fieldText, hvalue]; rfl
    refine ⟨by simp, fun _ => ⟨?_, ?_, ?_, ?_⟩⟩
    · rw [hvalue, hitem]
    · rw [htext, hitem]
      rfl
    · rw [fieldNumber, htext, hitem]
      rfl
    · rw [fieldNumberList, htext, hitem]
      rfl
  | some item =>
    obtain ⟨hfits, hhas⟩ := locate_fits hb (.inl ⟨rfl, rfl⟩) hitem
    obtain ⟨hclosed, hafter⟩ := hfits.closed hhas
    have htext : fieldText (lead ++ b.text) (pathText path) = some (valueText (item.value ++ item.after)) := by
      rw [fieldText, hvalue, hitem]
      rfl
    constructor
    · rintro h _ ⟨⟩
      have hread := h.text
      rw [htext, hitem, Option.map_some, Option.some.injEq] at hread
      refine ⟨(valueText_iff hclosed hafter).mp hread, fun hover => ?_⟩
      have hlist := h.numberList
      rw [fieldNumberList, htext, hread] at hlist
      dsimp only at hlist
      rw [readItems_of_overruns hover] at hlist
      cases hlist
    · intro h
      obtain ⟨htop, hover⟩ := h item rfl
      rw [valueText_of_closed htop hafter] at htext
      refine ⟨hvalue, ?_, ?_, ?_⟩
      · rw [htext, hitem]
        rfl
      · rw [fieldNumber, htext, hitem]
        exact parseDoubleToken_of_not_loneQuote htop.not_loneQuote
      · rw [fieldNumberList, htext, hitem]
        exact readItems_of_not_overruns hover

end

/-- `opt { step = 2 }`. -/
def stepBody : Body :=
  .block "opt".toList [' '] [' '] (.field "step".toList [' '] [' '] ['2', ' '] [] .nil) [] [] .nil

def commaBody : Body := .field ['x'] [' '] [' '] ('[' :: (['"', ',', '"'] ++ [']'])) [] .nil

theorem isKey_of_all {key : Text} (hne : key ≠ []) (h : key.all keyChar = true) : IsKey key :=
  ⟨hne, List.all_eq_true.mp h⟩

theorem blank_space : Blank [' '] := List.forall_mem_singleton.mpr (by decide)

theorem spaces_space : ∀ c ∈ [' '], isSpace c = true := List.forall_mem_singleton.mpr (by decide)

theorem closed_two : Closed true ['2', ' '] := .of_plain fun c hc => by
  have hall := List.all_eq_true.mp (by decide : ['2', ' '].all (fun c => plain c && c != ',' && c != '\n') = true) c hc
  simpa [and_assoc] using hall

theorem wellformed_step : stepBody.Wellformed := by
  have hopt : IsKey "opt".toList := isKey_of_all (by decide) (by decide)
  have hstep : IsKey "step".toList := isKey_of_all (by decide) (by decide)
  have hvalue : IsValue ['2', ' '] := ⟨closed_two, '2', [' '], rfl, by decide⟩
  refine ⟨hopt, spaces_space, List.forall_mem_singleton.mpr (by decide), ?_, by simp [Blank], .inl ⟨rfl, rfl⟩, by simp [Body.keys], trivial⟩
  exact ⟨hstep, spaces_space, blank_space, hvalue, .inl ⟨rfl, rfl⟩, by simp [Body.keys], trivial⟩

theorem wellformed_comma : commaBody.Wellformed := by
  have hstring : Closed false ['"', ',', '"'] := .quoted (.inl rfl) (.char (by decide) (by decide) .nil) .nil
  exact ⟨isKey_of_all (by decide) (by decide), spaces_space, blank_space,
    ⟨.bracket (by decide) hstring .nil, '[', _, rfl, by decide⟩, .inl ⟨rfl, rfl⟩, by simp [Body.keys], trivial⟩

/-- `strtod`, as far as the bodies go. -/
def strtodTwo (text : Text) : Option (Int × Text) := if text = ['2'] then some (2, []) else none

theorem exact_step : Exact strtodTwo ([] ++ stepBody.text) stepBody ["opt".toList, "step".toList] := by
  refine (exact_iff (by simp) wellformed_step ?_).mpr ?_
  · exact List.forall_mem_cons.mpr ⟨isKey_of_all (by decide) (by decide),
      List.forall_mem_singleton.mpr (isKey_of_all (by decide) (by decide))⟩
  · rintro _ ⟨⟩
    refine ⟨closed_two, ?_⟩
    rintro ⟨before, item, after, hitems, -, q, hq, htext⟩
    have hitem : item = ['2', ' '] := by
      have hmem : item ∈ listItems ['2', ' '] := by
        rw [show listItems ['2', ' '] = before ++ item :: after from hitems]
        simp
      exact List.mem_singleton.mp ((by decide : listItems ['2', ' '] = [['2', ' ']]) ▸ hmem)
    rw [hitem] at htext
    rcases hq with rfl | rfl
    · exact absurd htext (by decide)
    · exact absurd htext (by decide)

/-- The string of a comma is cut at the comma, and of the first quote alone more is copied than there is. -/
theorem not_exact : ¬∀ (strtod : Text → Option (Int × Text)) (lead : Text) (b : Body) (path : List Text),
    (∀ c ∈ lead, gap c = true) → b.Wellformed → (∀ k ∈ path, IsKey k) → Exact strtod (lead ++ b.text) b path := by
  intro h
  have hpath : ∀ k ∈ [['x']], IsKey k := List.forall_mem_singleton.mpr (isKey_of_all (by decide) (by decide))
  have hexact := h strtodTwo [] commaBody [['x']] (by simp) wellformed_comma hpath
  have hlist := hexact.numberList
  rw [fieldNumberList, hexact.text] at hlist
  have hover : Overruns strtodTwo (listItems ('[' :: (['"', ',', '"'] ++ [']']))) :=
    ⟨[], ['"'], [['"']], by decide, by simp, '"', .inl rfl, by decide⟩
  cases (readItems_of_overruns hover).symm.trans hlist

end Cxpr.Metadata
