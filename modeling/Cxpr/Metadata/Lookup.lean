import Cxpr.Metadata.Fields

/-! Metadata bodies as trees, and what the accessors find in the text of one. -/

namespace Cxpr.Metadata
open Document

/-! ### Bodies -/

/-- A body, entry by entry, each with the separator behind it: bare keys, `key = value` and `key { .. }`. -/
inductive Body where
  | nil
  | bare (key blanks sep : Text) (more : Body)
  | field (key before after value sep : Text) (more : Body)
  | block (key before lead : Text) (body : Body) (behind sep : Text) (more : Body)

inductive Item where
  | bare
  | field (value after : Text)
  | block (lead : Text) (body : Body) (after : Text)

namespace Body

def text : Body → Text
  | nil => []
  | bare key blanks sep more => key ++ (blanks ++ (sep ++ more.text))
  | field key before after value sep more => key ++ (before ++ ('=' :: (after ++ (value ++ (sep ++ more.text)))))
  | block key before lead body behind sep more =>
    key ++ (before ++ ('{' :: (lead ++ (body.text ++ ('}' :: (behind ++ (sep ++ more.text)))))))

def keys : Body → List Text
  | nil => []
  | bare key _ _ more => key :: more.keys
  | field key _ _ _ _ more => key :: more.keys
  | block key _ _ _ _ _ more => key :: more.keys

/-- The entry of a key, in a body with `rest` behind it. -/
def get : Body → Text → Text → Option Item
  | nil, _, _ => none
  | bare key _ _ more, k, rest => if key = k then some .bare else more.get k rest
  | field key _ _ value sep more, k, rest =>
    if key = k then some (.field value (sep ++ (more.text ++ rest))) else more.get k rest
  | block key _ lead body behind sep more, k, rest =>
    if key = k then some (.block lead body ('}' :: (behind ++ (sep ++ (more.text ++ rest))))) else more.get k rest

end Body

def Item.value : Item → Text
  | .bare => []
  | .field value _ => value
  | .block lead body _ => (lead ++ body.text).dropWhile isSpace

def Item.after : Item → Text
  | .bare => []
  | .field _ after => after
  | .block _ _ after => after

def Item.hasValue : Item → Bool
  | .bare => false
  | .field _ _ => true
  | .block _ _ _ => true

def Body.locate : Body → Text → List Text → Option Item
  | _, _, [] => none
  | b, rest, [k] => (b.get k rest).filter Item.hasValue
  | b, rest, k :: k' :: ks =>
    match b.get k rest with
    | some (.block _ body after) => body.locate after (k' :: ks)
    | _ => none

def IsKey (key : Text) : Prop := key ≠ [] ∧ ∀ c ∈ key, keyChar c = true

def Blank (s : Text) : Prop := ∀ c ∈ s, isSpace c = true ∧ c ≠ '\n'

structure IsValue (value : Text) : Prop where
  closed : Closed true value
  begins : ∃ c s, value = c :: s ∧ isSpace c = false

def Separates (sep : Text) (more : Body) : Prop :=
  sep = [] ∧ more = .nil ∨ ∃ c s, sep = c :: s ∧ (c = ',' ∨ c = '\n') ∧ ∀ c ∈ s, gap c = true

/-- Keys, values and separators are such, and on each level the keys are distinct. -/
def Body.Wellformed : Body → Prop
  | nil => True
  | bare key blanks sep more => IsKey key ∧ Blank blanks ∧ Separates sep more ∧ key ∉ more.keys ∧ more.Wellformed
  | field key before after value sep more =>
    IsKey key ∧ (∀ c ∈ before, isSpace c = true) ∧ Blank after ∧ IsValue value ∧ Separates sep more ∧ key ∉ more.keys ∧
      more.Wellformed
  | block key before lead body behind sep more =>
    IsKey key ∧ (∀ c ∈ before, isSpace c = true) ∧ (∀ c ∈ lead, gap c = true) ∧ body.Wellformed ∧ Blank behind ∧
      Separates sep more ∧ key ∉ more.keys ∧ more.Wellformed

def spaces : List Char := [' ', '\t', '\n', Char.ofNat 11, Char.ofNat 12, '\r']

variable {c : Char}

theorem mem_spaces (h : isSpace c = true) : c ∈ spaces := by
  have hcode : ∀ n : Nat, c.toNat = n → c = Char.ofNat n := by
    rintro _ rfl
    exact (Char.ofNat_toNat c).symm
  simp only [isSpace, Bool.or_eq_true, beq_iff_eq] at h
  simp only [spaces, List.mem_cons, List.not_mem_nil, or_false]
  rcases h with ((((h | h) | h) | h) | h) | h
  · exact .inl h
  · exact .inr (.inl h)
  · exact .inr (.inr (.inl h))
  · exact .inr (.inr (.inr (.inl (hcode _ h))))
  · exact .inr (.inr (.inr (.inr (.inl (hcode _ h)))))
  · exact .inr (.inr (.inr (.inr (.inr h))))

theorem gap_cases (h : gap c = true) : isSpace c = true ∨ c = ',' := by
  simpa [gap] using h

theorem plain_of_space (h : isSpace c = true) : plain c = true ∧ c ≠ ',' :=
  by simpa using List.all_eq_true.mp (by decide : spaces.all (fun c => plain c && c != ',') = true) c (mem_spaces h)

theorem plain_of_gap (h : gap c = true) : plain c = true := by
  rcases gap_cases h with h | rfl
  · exact (plain_of_space h).1
  · decide

theorem not_keyChar_of_gap (h : gap c = true) : keyChar c = false := by
  rcases gap_cases h with h | rfl
  · simpa using List.all_eq_true.mp (by decide : spaces.all (fun c => !keyChar c) = true) c (mem_spaces h)
  · decide

theorem keyChar_ne {d : Char} (h : keyChar c = true) (hd : keyChar d = false) : c ≠ d := by
  rintro rfl
  rw [hd] at h
  cases h

theorem gap_of_keyChar (h : keyChar c = true) : gap c = false := by
  by_contra hgap
  rw [Bool.not_eq_false] at hgap
  exact keyChar_ne h (not_keyChar_of_gap hgap) rfl

theorem space_of_gap (h : gap c = false) : isSpace c = false := (Bool.or_eq_false_iff.mp h).1

theorem plain_of_keyChar (h : keyChar c = true) : plain c = true := by
  by_contra hc
  simp only [plain, List.contains_eq_mem, Bool.not_eq_true', decide_eq_false_iff_not, not_not] at hc
  have hall := List.all_eq_true.mp
    (by decide : ['"', '\'', '(', ')', '[', ']', '{', '}'].all (fun c => !keyChar c) = true) c hc
  exact keyChar_ne h (by simpa using hall) rfl

/-! ### One step of the search -/

def Ends (limit : Option Nat) (rest : Text) : Prop :=
  limit = none ∧ rest = [] ∨ limit = some rest.length ∧ ∃ behind, rest = '}' :: behind

section
variable {limit : Option Nat} {k lead t rest tail : Text} {c : Char}

theorem Ends.beyond (h : Ends limit rest) : Beyond limit rest := by
  rcases h with ⟨rfl, rfl⟩ | ⟨rfl, -⟩
  · simp [Beyond]
  · simp [Beyond]

theorem Ends.not_inside (h : Ends limit rest) : inside limit rest = false := by
  rcases h with ⟨rfl, rfl⟩ | ⟨rfl, -⟩ <;> simp [inside]

theorem Beyond.append (h : Beyond limit rest) (s : Text) : Beyond limit (s ++ rest) :=
  fun n hn => (h n hn).trans (by simp)

theorem Beyond.cons (h : Beyond limit rest) (c : Char) : Beyond limit (c :: rest) := h.append [c]

theorem find_of_not_inside (h : inside limit rest = false) : findFieldValue limit k rest = none := by
  rw [findFieldValue]
  simp [h]

structure Begins (t : Text) : Prop where
  closed : Closed true t
  first : ∃ c s, t = c :: s ∧ gap c = false ∧ c ≠ '}'

theorem find_start (hlead : ∀ c ∈ lead, gap c = true) (ht : Begins t) (hrest : Beyond limit rest) :
    findFieldValue limit k (lead ++ (t ++ rest)) = (fieldAt k (t ++ rest)).or
      (if inside limit (scan endsValue limit {} rest) then findFieldValue limit k (scan endsValue limit {} rest).tail
        else none) := by
  obtain ⟨c, s, rfl, hc, hbrace⟩ := ht.first
  have hstart : (lead ++ (c :: s ++ rest)).dropWhile gap = c :: s ++ rest := by
    rw [List.dropWhile_append_of_pos hlead, List.cons_append, List.dropWhile_cons_of_neg (by simp [hc])]
  have hend : valueEnd limit (c :: s ++ rest) = scan endsValue limit {} rest :=
    scan_closed stops_endsValue ht.closed hrest rfl rfl (.inl rfl)
  have hin : inside limit (c :: s ++ rest) = true := inside_of_beyond hrest (by simp only [List.cons_append, List.length_cons, List.length_append]; omega)
  have hin' : inside limit (lead ++ (c :: s ++ rest)) = true := inside_of_beyond hrest (by simp only [List.cons_append, List.length_cons, List.length_append]; omega)
  rw [findFieldValue, hstart, hin, hin', hend, if_neg (by simp [hbrace])]
  cases fieldAt k (c :: s ++ rest) <;> rfl

theorem find_found (hk : IsKey k) (hlead : ∀ c ∈ lead, gap c = true) (htail : Beyond limit tail) {found : Text × Bool}
    (hfound : fieldAt k (k ++ tail) = some found) : findFieldValue limit k (lead ++ (k ++ tail)) = some found := by
  obtain ⟨c, s, rfl⟩ := List.exists_cons_of_ne_nil hk.1
  have hc := hk.2 c List.mem_cons_self
  have hstart : (lead ++ (c :: s ++ tail)).dropWhile gap = c :: s ++ tail := by
    rw [List.dropWhile_append_of_pos hlead, List.cons_append, List.dropWhile_cons_of_neg (by simp [gap_of_keyChar hc])]
  have hin : inside limit (c :: s ++ tail) = true := inside_of_beyond htail (by simp only [List.cons_append, List.length_cons, List.length_append]; omega)
  have hin' : inside limit (lead ++ (c :: s ++ tail)) = true := inside_of_beyond htail (by simp only [List.cons_append, List.length_cons, List.length_append]; omega)
  rw [findFieldValue, hstart, hin, hin', if_neg (by simp [keyChar_ne hc (show keyChar '}' = false by decide)]), hfound]

theorem find_next (hlead : ∀ c ∈ lead, gap c = true) (ht : Begins t) (hc : c = ',' ∨ c = '\n') (hrest : Beyond limit rest)
    (hnone : fieldAt k (t ++ c :: rest) = none) :
    findFieldValue limit k (lead ++ (t ++ c :: rest)) = findFieldValue limit k rest := by
  have hstop : endsValue {} c = true := by
    rcases hc with rfl | rfl <;> rfl
  have hin : inside limit (c :: rest) = true := inside_of_beyond hrest (by simp)
  rw [find_start hlead ht (hrest.cons c), hnone, scan_stop hstop]
  simp [hin]

theorem find_last (hlead : ∀ c ∈ lead, gap c = true) (ht : Begins t) (hrest : Ends limit rest)
    (hnone : fieldAt k (t ++ rest) = none) : findFieldValue limit k (lead ++ (t ++ rest)) = none := by
  rw [find_start hlead ht hrest.beyond, hnone, scan_outside hrest.not_inside]
  simp [hrest.not_inside]

def NotKey (tail : Text) : Prop := tail.head?.any keyChar = false

theorem notKey_cons (hc : keyChar c = false) : NotKey (c :: tail) := by simp [NotKey, hc]

theorem fieldAt_not_key (hk : IsKey k) (hc : keyChar c = false) : fieldAt k (c :: tail) = none := by
  obtain ⟨first, s, rfl⟩ := List.exists_cons_of_ne_nil hk.1
  have hne := keyChar_ne (hk.2 first List.mem_cons_self) hc
  simp [fieldAt, hne]

theorem fieldAt_other {key : Text} (hk : IsKey k) (hkey : IsKey key) (hne : key ≠ k) (htail : NotKey tail) :
    fieldAt k (key ++ tail) = none := by
  unfold fieldAt
  rw [if_neg]
  intro hfound
  rw [Bool.and_eq_true, List.isPrefixOf_iff_prefix, Bool.not_eq_true'] at hfound
  obtain ⟨hfront, hnext⟩ := hfound
  rcases List.prefix_or_prefix_of_prefix hfront (List.prefix_append key tail) with ⟨u, rfl⟩ | ⟨u, rfl⟩
  · cases u with
    | nil => exact hne (List.append_nil k)
    | cons c u =>
      have hc := hkey.2 c (by simp)
      rw [List.append_assoc, List.drop_left' rfl] at hnext
      simp [hc] at hnext
  · cases u with
    | nil => exact hne (List.append_nil key).symm
    | cons c u =>
      have hc := hk.2 c (by simp)
      obtain ⟨v, hv⟩ := hfront
      rw [List.append_assoc, List.append_cancel_left_eq] at hv
      rw [NotKey, ← hv] at htail
      simp [hc] at htail

theorem fieldAt_self (htail : NotKey tail) : fieldAt k (k ++ tail) =
    if (tail.dropWhile isSpace).head? == some '=' then some ((tail.dropWhile isSpace).tail.dropWhile isSpace, false)
    else if (tail.dropWhile isSpace).head? == some '{' then some ((tail.dropWhile isSpace).tail.dropWhile isSpace, true)
    else none := by
  unfold fieldAt
  rw [List.drop_left' rfl, if_pos]
  rw [Bool.and_eq_true, List.isPrefixOf_iff_prefix, Bool.not_eq_true']
  exact ⟨List.prefix_append k tail, htail⟩

theorem closed_key (hk : IsKey k) : Closed true k :=
  .of_plain fun c hc => ⟨plain_of_keyChar (hk.2 c hc), fun _ =>
    ⟨keyChar_ne (hk.2 c hc) (by decide), keyChar_ne (hk.2 c hc) (by decide)⟩⟩

variable {s : Text} {b : Body}

theorem closed_blank (hs : Blank s) : Closed true s :=
  .of_plain fun c hc => ⟨(plain_of_space (hs c hc).1).1, fun _ => ⟨(plain_of_space (hs c hc).1).2, (hs c hc).2⟩⟩

theorem begins_key (hk : IsKey k) (ht : Closed true t) : Begins (k ++ t) := by
  refine ⟨(closed_key hk).append ht, ?_⟩
  obtain ⟨c, s, rfl⟩ := List.exists_cons_of_ne_nil hk.1
  have hc := hk.2 c List.mem_cons_self
  exact ⟨c, s ++ t, rfl, gap_of_keyChar hc, keyChar_ne hc (by decide)⟩

theorem blank_or_lines (hs : ∀ c ∈ s, isSpace c = true) :
    Blank s ∨ ∃ s₁ s₂, s = s₁ ++ '\n' :: s₂ ∧ Blank s₁ ∧ ∀ c ∈ s₂, isSpace c = true := by
  by_cases hline : '\n' ∈ s
  · obtain ⟨s₁, s₂, rfl, hfirst⟩ := List.eq_append_cons_of_mem hline
    refine .inr ⟨s₁, s₂, rfl, fun c hc => ⟨hs c (by simp [hc]), ?_⟩, fun c hc => hs c (by simp [hc])⟩
    rintro rfl
    exact hfirst hc
  · refine .inl fun c hc => ⟨hs c hc, ?_⟩
    rintro rfl
    exact hline hc

section
variable {sep : Text} {more : Body}

theorem Separates.tail_gap (h : Separates sep more) : ∀ c ∈ sep.tail, gap c = true := by
  rcases h with ⟨rfl, -⟩ | ⟨c, s, rfl, -, hs⟩
  · simp
  · exact hs

theorem Separates.gaps (h : Separates sep more) : ∀ c ∈ sep, gap c = true := by
  rcases h with ⟨rfl, -⟩ | ⟨c, s, rfl, hc, hs⟩
  · simp
  · refine List.forall_mem_cons.mpr ⟨?_, hs⟩
    rcases hc with rfl | rfl <;> rfl

theorem notKey_append {s : Text} (hs : ∀ c ∈ s, gap c = true) (ht : NotKey t) : NotKey (s ++ t) := by
  cases s with
  | nil => exact ht
  | cons c s => simp [NotKey, not_keyChar_of_gap (hs c List.mem_cons_self)]

theorem Ends.notKey (h : Ends limit rest) : NotKey rest := by
  rcases h with ⟨-, rfl⟩ | ⟨-, behind, rfl⟩ <;> rfl

theorem Separates.notKey (h : Separates sep more) (hrest : Ends limit rest) : NotKey (sep ++ (more.text ++ rest)) := by
  rcases h with ⟨rfl, rfl⟩ | ⟨c, s, rfl, hc, -⟩
  · exact hrest.notKey
  · rcases hc with rfl | rfl <;> rfl

theorem Body.Wellformed.first (h : more.Wellformed) (hrest : Ends limit rest) :
    more.text ++ rest = [] ∨ ∃ c s, more.text ++ rest = c :: s ∧ isSpace c = false ∧ c ≠ '=' ∧ c ≠ '{' := by
  have hfirst : ∀ key t : Text, IsKey key → ∃ c s, key ++ t = c :: s ∧ isSpace c = false ∧ c ≠ '=' ∧ c ≠ '{' := by
    intro key t hkey
    obtain ⟨c, s, rfl⟩ := List.exists_cons_of_ne_nil hkey.1
    have hc := hkey.2 c List.mem_cons_self
    exact ⟨c, s ++ t, rfl, space_of_gap (gap_of_keyChar hc), keyChar_ne hc (by decide), keyChar_ne hc (by decide)⟩
  cases more with
  | nil =>
    rcases hrest with ⟨-, rfl⟩ | ⟨-, behind, rfl⟩
    · exact .inl rfl
    · exact .inr ⟨'}', behind, rfl, by decide, by decide, by decide⟩
  | bare key =>
    rw [Body.text, List.append_assoc]
    exact .inr (hfirst key _ h.1)
  | field key =>
    rw [Body.text, List.append_assoc]
    exact .inr (hfirst key _ h.1)
  | block key =>
    rw [Body.text, List.append_assoc]
    exact .inr (hfirst key _ h.1)

theorem head_of_gaps {s : Text} (hs : ∀ c ∈ s, gap c = true) (hc : ((s ++ t).dropWhile isSpace).head? = some c) :
    c = ',' ∨ (t.dropWhile isSpace).head? = some c := by
  induction s with
  | nil => exact .inr hc
  | cons d s ih =>
    obtain ⟨hd, hs⟩ := List.forall_mem_cons.mp hs
    rw [List.cons_append] at hc
    rcases gap_cases hd with hspace | rfl
    · rw [List.dropWhile_cons_of_pos hspace] at hc
      exact ih hs hc
    · rw [List.dropWhile_cons_of_neg (by decide)] at hc
      exact .inl (Option.some.inj hc).symm

theorem fieldAt_bare {key blanks : Text} (hk : IsKey k) (hkey : IsKey key) (hblanks : Blank blanks) (hsep : Separates sep more)
    (hmore : more.Wellformed) (hrest : Ends limit rest) :
    fieldAt k (key ++ (blanks ++ (sep ++ (more.text ++ rest)))) = none := by
  have hgaps : ∀ c ∈ blanks, gap c = true := fun c hc => Bool.or_eq_true_iff.mpr (.inl (hblanks c hc).1)
  have htail := notKey_append hgaps (hsep.notKey hrest)
  by_cases hne : key = k
  · have hhead : ∀ c, ((blanks ++ (sep ++ (more.text ++ rest))).dropWhile isSpace).head? = some c → c ≠ '=' ∧ c ≠ '{' := by
      intro c hc
      rw [← List.append_assoc] at hc
      have hall : ∀ c ∈ blanks ++ sep, gap c = true := List.forall_mem_append.mpr ⟨hgaps, hsep.gaps⟩
      rcases head_of_gaps hall hc with rfl | hc
      · decide
      · rcases hmore.first hrest with hnil | ⟨d, s, hd, hspace, hne⟩
        · rw [hnil] at hc
          cases hc
        · rw [hd, List.dropWhile_cons_of_neg (by simp [hspace])] at hc
          cases hc
          exact hne
    rw [hne, fieldAt_self htail]
    rw [if_neg, if_neg]
    · intro h
      exact (hhead _ (beq_iff_eq.mp h)).2 rfl
    · intro h
      exact (hhead _ (beq_iff_eq.mp h)).1 rfl
  · exact fieldAt_other hk hkey hne htail

theorem find_skip (hlead : ∀ c ∈ lead, gap c = true) (ht : Begins t) (hsep : Separates sep more) (hrest : Ends limit rest)
    (hnone : fieldAt k (t ++ (sep ++ (more.text ++ rest))) = none) :
    findFieldValue limit k (lead ++ (t ++ (sep ++ (more.text ++ rest)))) =
      findFieldValue limit k (sep.tail ++ (more.text ++ rest)) := by
  rcases hsep with ⟨rfl, rfl⟩ | ⟨c, s, rfl, hc, -⟩
  · exact (find_last hlead ht hrest hnone).trans (find_of_not_inside hrest.not_inside).symm
  · exact find_next hlead ht hc ((hrest.beyond.append _).append s) hnone

theorem find_skip_entry {key before : Text} (hk : IsKey k) (hkey : IsKey key) (hne : key ≠ k)
    (hlead : ∀ c ∈ lead, gap c = true) (hbefore : ∀ c ∈ before, isSpace c = true) (ht : Begins t) (hfirst : NotKey t)
    (hsep : Separates sep more) (hrest : Ends limit rest) :
    findFieldValue limit k (lead ++ (key ++ (before ++ (t ++ (sep ++ (more.text ++ rest)))))) =
      findFieldValue limit k (sep.tail ++ (more.text ++ rest)) := by
  obtain ⟨c, s, rfl, -, -⟩ := ht.first
  have hc : keyChar c = false := by simpa [NotKey] using hfirst
  have hgaps : ∀ c ∈ before, gap c = true := fun c hc => Bool.or_eq_true_iff.mpr (.inl (hbefore c hc))
  have hother : fieldAt k (key ++ (before ++ (c :: s ++ (sep ++ (more.text ++ rest))))) = none :=
    fieldAt_other hk hkey hne (notKey_append hgaps (by simpa [NotKey] using hc))
  rcases blank_or_lines hbefore with hblank | ⟨s₁, s₂, rfl, hblank, hspaces⟩
  · have hbegins := begins_key hkey ((closed_blank hblank).append ht.closed)
    have hskip := @find_skip limit k lead (key ++ (before ++ c :: s)) rest sep more hlead hbegins hsep hrest
    simp only [List.append_assoc] at hskip hother ⊢
    exact hskip hother
  · have hbegins := begins_key hkey (closed_blank hblank)
    have hbeyond : Beyond limit (s₂ ++ (c :: s ++ (sep ++ (more.text ++ rest)))) :=
      (((hrest.beyond.append _).append _).append _).append _
    have hnext := find_next (k := k) hlead hbegins (.inr rfl) hbeyond
    simp only [List.append_assoc, List.cons_append] at hnext hother ⊢
    rw [hnext hother]
    exact find_skip (fun c hc => Bool.or_eq_true_iff.mpr (.inl (hspaces c hc))) ht hsep hrest (fieldAt_not_key hk hc)

end

theorem closed_gaps (hs : ∀ c ∈ s, gap c = true) : Closed false s :=
  .of_plain fun c hc => ⟨plain_of_gap (hs c hc), by simp⟩

theorem Closed.space (hs : ∀ c ∈ s, isSpace c = true) : Closed false s :=
  closed_gaps fun c hc => Bool.or_eq_true_iff.mpr (.inl (hs c hc))

theorem Body.Wellformed.closed (h : b.Wellformed) : Closed false b.text := by
  induction b with
  | nil => exact .nil
  | bare key blanks sep more ih =>
    obtain ⟨hkey, hblanks, hsep, -, hmore⟩ := h
    exact (closed_key hkey).deeper.append ((closed_blank hblanks).deeper.append ((closed_gaps hsep.gaps).append (ih hmore)))
  | field key before after value sep more ih =>
    obtain ⟨hkey, hbefore, hafter, hvalue, hsep, -, hmore⟩ := h
    refine (closed_key hkey).deeper.append ((Closed.space hbefore).append (.char (by decide) (by simp) ?_))
    exact (closed_blank hafter).deeper.append (hvalue.closed.deeper.append ((closed_gaps hsep.gaps).append (ih hmore)))
  | block key before lead body behind sep more ih ih' =>
    obtain ⟨hkey, hbefore, hlead, hbody, hbehind, hsep, -, hmore⟩ := h
    refine (closed_key hkey).deeper.append ((Closed.space hbefore).append ?_)
    rw [← List.append_assoc]
    exact .bracket (by decide) ((closed_gaps hlead).append (ih hbody))
      ((closed_blank hbehind).deeper.append ((closed_gaps hsep.gaps).append (ih' hmore)))

theorem Body.mem_keys {item : Item} (h : b.get k rest = some item) : k ∈ b.keys := by
  induction b with
  | nil => cases h
  | bare key _ _ more ih | field key _ _ _ _ more ih | block key _ _ _ _ _ more _ ih =>
    rw [Body.get] at h
    split at h
    · rename_i heq
      rw [heq]
      exact List.mem_cons_self
    · exact List.mem_cons_of_mem _ (ih h)

theorem Body.get_of_not_mem (h : k ∉ b.keys) : b.get k rest = none := by
  cases hget : b.get k rest with
  | none => rfl
  | some item => exact absurd (Body.mem_keys hget) h

def Item.place : Item → Option (Text × Bool)
  | .bare => none
  | .field value after => some (value ++ after, false)
  | .block lead body after => some ((lead ++ (body.text ++ after)).dropWhile isSpace, true)

theorem find_body (hb : b.Wellformed) (hk : IsKey k) (hlead : ∀ c ∈ lead, gap c = true) (hrest : Ends limit rest) :
    findFieldValue limit k (lead ++ (b.text ++ rest)) = (b.get k rest).bind Item.place := by
  induction b generalizing lead with
  | nil =>
    have hstart : (lead ++ rest).dropWhile gap = rest := by
      rw [List.dropWhile_append_of_pos hlead]
      rcases hrest with ⟨-, rfl⟩ | ⟨-, behind, rfl⟩ <;> rfl
    rw [Body.text, List.nil_append, findFieldValue, hstart, hrest.not_inside]
    simp [Body.get]
  | bare key blanks sep more ih =>
    obtain ⟨hkey, hblanks, hsep, hnot, hmore⟩ := hb
    have hskip := @find_skip limit k lead _ rest sep more hlead (begins_key hkey (closed_blank hblanks)) hsep hrest
    simp only [List.append_assoc] at hskip
    rw [Body.text, Body.get]
    simp only [List.append_assoc]
    rw [hskip (fieldAt_bare hk hkey hblanks hsep hmore hrest), ih hmore hsep.tail_gap]
    split
    · rename_i heq
      rw [Body.get_of_not_mem (heq ▸ hnot)]
      rfl
    · rfl
  | field key before after value sep more ih =>
    obtain ⟨hkey, hbefore, hafter, hvalue, hsep, hnot, hmore⟩ := hb
    rw [Body.text, Body.get]
    simp only [List.append_assoc, List.cons_append]
    by_cases hne : key = k
    · obtain ⟨c, s, rfl, hc⟩ := hvalue.begins
      have hgaps : ∀ c ∈ before, gap c = true := fun c hc => Bool.or_eq_true_iff.mpr (.inl (hbefore c hc))
      rw [if_pos hne, hne, Option.bind_some, Item.place]
      refine find_found hk hlead ((((((hrest.beyond.append _).append _).append _).append _).cons _).append _) ?_
      rw [fieldAt_self (notKey_append hgaps (notKey_cons (by decide))), List.dropWhile_append_of_pos hbefore,
        List.dropWhile_cons_of_neg (by decide), if_pos (by simp), List.tail_cons,
        List.dropWhile_append_of_pos fun c hc => (hafter c hc).1, List.cons_append,
        List.dropWhile_cons_of_neg (by simp [hc])]
    · rw [if_neg hne]
      have hbegins : Begins ('=' :: (after ++ value)) :=
        ⟨.char (by decide) (by decide) ((closed_blank hafter).append hvalue.closed), '=', _, rfl, by decide, by decide⟩
      have hskip := find_skip_entry hk hkey hne hlead hbefore hbegins rfl hsep hrest
      simp only [List.append_assoc, List.cons_append] at hskip
      rw [hskip, ih hmore hsep.tail_gap]
  | block key before inner body behind sep more _ ih =>
    obtain ⟨hkey, hbefore, hinner, hbody, hbehind, hsep, hnot, hmore⟩ := hb
    rw [Body.text, Body.get]
    simp only [List.append_assoc, List.cons_append]
    by_cases hne : key = k
    · have hgaps : ∀ c ∈ before, gap c = true := fun c hc => Bool.or_eq_true_iff.mpr (.inl (hbefore c hc))
      rw [if_pos hne, hne, Option.bind_some, Item.place]
      refine find_found hk hlead ((((((((hrest.beyond.append _).append _).append _).cons _).append _).append _).cons _).append _) ?_
      rw [fieldAt_self (notKey_append hgaps (notKey_cons (by decide))), List.dropWhile_append_of_pos hbefore,
        List.dropWhile_cons_of_neg (by decide), if_neg (by simp), if_pos (by simp), List.tail_cons]
    · rw [if_neg hne]
      have hbegins : Begins ('{' :: (inner ++ body.text ++ '}' :: behind)) :=
        ⟨.bracket (by decide) ((closed_gaps hinner).append hbody.closed) (closed_blank hbehind), '{', _, rfl, by decide, by decide⟩
      have hskip := find_skip_entry hk hkey hne hlead hbefore hbegins rfl hsep hrest
      simp only [List.append_assoc, List.cons_append] at hskip
      rw [hskip, ih hmore hsep.tail_gap]

end

def Item.Fits : Item → Prop
  | .bare => True
  | .field value after => IsValue value ∧ (after = [] ∨ ∃ c s, after = c :: s ∧ endsValue {} c = true)
  | .block lead body after => (∀ c ∈ lead, gap c = true) ∧ body.Wellformed ∧ ∃ behind, after = '}' :: behind

section
variable {limit : Option Nat} {k lead rest : Text} {b : Body} {item : Item}

theorem Ends.endsValue (h : Ends limit rest) : rest = [] ∨ ∃ c s, rest = c :: s ∧ endsValue {} c = true := by
  rcases h with ⟨-, rfl⟩ | ⟨-, behind, rfl⟩
  · exact .inl rfl
  · exact .inr ⟨'}', behind, rfl, rfl⟩

theorem Body.Wellformed.fits (h : b.Wellformed) (hrest : Ends limit rest) (hget : b.get k rest = some item) :
    item.Fits := by
  induction b with
  | nil => cases hget
  | bare key blanks sep more ih =>
    rw [Body.get] at hget
    split at hget
    · cases hget
      exact trivial
    · exact ih h.2.2.2.2 hget
  | field key before after value sep more ih =>
    obtain ⟨-, -, -, hvalue, hsep, -, hmore⟩ := h
    rw [Body.get] at hget
    split at hget
    · cases hget
      refine ⟨hvalue, ?_⟩
      rcases hsep with ⟨rfl, rfl⟩ | ⟨c, s, rfl, hc, -⟩
      · exact hrest.endsValue
      · refine .inr ⟨c, _, rfl, ?_⟩
        rcases hc with rfl | rfl <;> rfl
    · exact ih hmore hget
  | block key before inner body behind sep more _ ih =>
    obtain ⟨-, -, hinner, hbody, -, -, -, hmore⟩ := h
    rw [Body.get] at hget
    split at hget
    · cases hget
      exact ⟨hinner, hbody, _, rfl⟩
    · exact ih hmore hget

theorem Body.suffix_after {body : Body} {after : Text} (hget : b.get k rest = some (.block lead body after)) :
    rest <:+ after := by
  induction b with
  | nil => cases hget
  | bare key blanks sep more ih | field key before after value sep more ih =>
    rw [Body.get] at hget
    split at hget
    · cases hget
    · exact ih hget
  | block key before inner body' behind sep more _ ih =>
    rw [Body.get] at hget
    split at hget
    · cases hget
      exact ⟨'}' :: (behind ++ (sep ++ more.text)), by simp⟩
    · exact ih hget

theorem dropWhile_append_of_head {s t : Text} (ht : t.dropWhile isSpace = t) :
    (s ++ t).dropWhile isSpace = s.dropWhile isSpace ++ t := by
  rw [List.dropWhile_append]
  split
  · rename_i hnil
    rw [ht, List.isEmpty_iff.mp hnil, List.nil_append]
  · rfl

theorem Body.Wellformed.dropWhile (h : b.Wellformed) (hrest : Ends limit rest) :
    (b.text ++ rest).dropWhile isSpace = b.text ++ rest := by
  rcases h.first hrest with hnil | ⟨c, s, hc, hspace, -⟩
  · rw [hnil]
    rfl
  · rw [hc, List.dropWhile_cons_of_neg (by simp [hspace])]

theorem Item.Fits.place (h : item.Fits) (hvalue : item.hasValue = true) :
    ∃ isBlock, item.place = some (item.value ++ item.after, isBlock) := by
  cases item with
  | bare => cases hvalue
  | field value after => exact ⟨false, rfl⟩
  | block lead body after =>
    obtain ⟨-, hbody, behind, rfl⟩ := h
    have hends : Ends (some ('}' :: behind).length) ('}' :: behind) := .inr ⟨rfl, behind, rfl⟩
    have htext := hbody.dropWhile (.inl ⟨rfl, rfl⟩)
    rw [List.append_nil] at htext
    refine ⟨true, ?_⟩
    rw [Item.place, Item.value, Item.after, dropWhile_append_of_head (hbody.dropWhile hends), dropWhile_append_of_head htext,
      List.append_assoc]

theorem blockBodyEnd_body {body : Body} {after : Text} (hlead : ∀ c ∈ lead, gap c = true) (hbody : body.Wellformed)
    (hafter : ∃ behind, after = '}' :: behind) (hlimit : Beyond limit after) :
    blockBodyEnd limit (lead ++ (body.text ++ after)) = after := by
  have hclosed : Closed false (lead ++ body.text) := (closed_gaps hlead).append hbody.closed
  have hbrace : ∀ d c, endsBlock d c = true → c = '}' := by
    intro d c h
    simp only [endsBlock, Bool.and_eq_true, beq_iff_eq] at h
    exact h.2
  obtain ⟨behind, rfl⟩ := hafter
  rw [blockBodyEnd, ← List.append_assoc, scan_closed stops_endsBlock hclosed hlimit rfl rfl (.inr (.inr hbrace))]
  exact scan_stop rfl

theorem descend_body {path : List Text} (hpath : ∀ k ∈ path, IsKey k) (hb : b.Wellformed)
    (hlead : ∀ c ∈ lead, gap c = true) (hrest : Ends limit rest) :
    descend limit (lead ++ (b.text ++ rest)) path = (b.locate rest path).map fun item => item.value ++ item.after := by
  induction path generalizing b lead rest limit with
  | nil => rfl
  | cons k path ih =>
    obtain ⟨hk, hpath⟩ := List.forall_mem_cons.mp hpath
    have hfind := find_body hb hk hlead hrest
    cases path with
    | nil =>
      rw [descend, if_neg (by simpa using hk.1), hfind, Body.locate]
      cases hget : b.get k rest with
      | none => rfl
      | some item =>
        cases hvalue : item.hasValue with
        | false =>
          obtain rfl : item = .bare := by
            cases item
            · rfl
            · cases hvalue
            · cases hvalue
          rfl
        | true =>
          obtain ⟨isBlock, hplace⟩ := (hb.fits hrest hget).place hvalue
          rw [Option.bind_some, hplace]
          simp [Option.filter, hvalue]
    | cons k' path =>
      rw [descend, hfind, Body.locate]
      · cases hget : b.get k rest with
        | none => rfl
        | some item =>
          cases item with
          | bare => rfl
          | field value after => rfl
          | block lead' body after =>
            obtain ⟨hlead', hbody, hafter⟩ := hb.fits hrest hget
            have hbeyond : Beyond limit after := by
              obtain ⟨t, rfl⟩ := Body.suffix_after hget
              exact hrest.beyond.append t
            have hends : Ends (some after.length) after := .inr ⟨rfl, hafter⟩
            have hgaps : ∀ c ∈ lead'.dropWhile isSpace, gap c = true :=
              fun c hc => hlead' c ((List.dropWhile_suffix isSpace).subset hc)
            rw [Option.bind_some, Item.place, dropWhile_append_of_head (hbody.dropWhile hends)]
            dsimp only
            rw [blockBodyEnd_body hgaps hbody hafter hbeyond]
            exact ih hpath hbody hgaps hends
      · exact fun h => List.cons_ne_nil _ _ h

end

end Cxpr.Metadata
