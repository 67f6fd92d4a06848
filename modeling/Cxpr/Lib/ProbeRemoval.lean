import Cxpr.Lib.ProbeInvariant

/-! Removal from tables with open addressing. The slot of the key is emptied; then the keys behind it, up to the next
    empty slot, are taken out and put back one by one. Meanwhile a key behind the loop may have an empty slot before
    it, but only one that the loop has passed. -/

namespace ProbeTable
variable {K V : Type} {hash : K → Nat} {entries : List (Option (K × V))} {key : K} {i : Nat}

section
variable [DecidableEq K]

/-- The slot of a key or, if it is not there, the empty slot where its probe ends; `none` when it goes on for more than
    `fuel` slots. -/
def slotFor (entries : List (Option (K × V))) (key : K) : Nat → Nat → Option Nat
  | 0, _ => none
  | fuel + 1, slot =>
    match entries[slot]? with
    | some (some (k, _)) => if k = key then some slot else slotFor entries key fuel ((slot + 1) % entries.length)
    | _ => some slot

def homeSlotFor (hash : K → Nat) (entries : List (Option (K × V))) (key : K) : Option Nat :=
  slotFor entries key entries.length (hash key % entries.length)

/-- Takes out the keys from a slot on and puts them back, up to an empty slot; `none` when it goes on for more than
    `fuel` slots. -/
def reinsert (hash : K → Nat) : Nat → Table K V → Nat → Option (Table K V)
  | 0, _, _ => none
  | fuel + 1, t, index =>
    match t.entries[index]? with
    | some (some entry) =>
      (homeSlotFor hash (t.entries.set index none) entry.1).bind fun target =>
        reinsert hash fuel ⟨(t.entries.set index none).set target (some entry), t.count - 1 + 1⟩
          ((index + 1) % t.entries.length)
    | _ => some t

def Table.removeAt (hash : K → Nat) (t : Table K V) (index : Nat) : Option (Table K V) :=
  reinsert hash t.entries.length ⟨t.entries.set index none, t.count - 1⟩ ((index + 1) % t.entries.length)

end

section
variable [DecidableEq K]

theorem slotFor_along {r fuel e : Nat}
    (h : ∀ c < r, ∃ kv, entries[along hash entries key (e + c)]? = some (some kv) ∧ kv.1 ≠ key) :
    slotFor entries key (r + fuel) (along hash entries key e) = slotFor entries key fuel (along hash entries key (e + r)) := by
  induction r generalizing e with
  | zero => rw [Nat.zero_add, Nat.add_zero]
  | succ r ih =>
    obtain ⟨kv, hkv, hne⟩ := h 0 (by omega)
    rw [Nat.add_zero] at hkv
    rw [Nat.add_right_comm, slotFor, hkv]
    simp only [if_neg hne]
    rw [← along_succ, ih, Nat.add_assoc, Nat.add_comm 1]
    intro c hc
    rw [Nat.add_assoc, Nat.add_comm 1]
    exact h (c + 1) (by omega)

theorem homeSlotFor_eq {d : Nat} (hd : d < entries.length)
    (h : ∀ c < d, ∃ kv, entries[along hash entries key c]? = some (some kv) ∧ kv.1 ≠ key)
    (hend : (∃ v, entries[along hash entries key d]? = some (some (key, v))) ∨
      entries[along hash entries key d]? = some none) :
    homeSlotFor hash entries key = some (along hash entries key d) := by
  have hfuel : entries.length = d + (entries.length - d - 1 + 1) := by omega
  calc slotFor entries key entries.length (along hash entries key 0)
      = slotFor entries key (d + (entries.length - d - 1 + 1)) (along hash entries key 0) :=
        congrArg (fun fuel => slotFor entries key fuel (along hash entries key 0)) hfuel
    _ = slotFor entries key (entries.length - d - 1 + 1) (along hash entries key (0 + d)) := by
        refine slotFor_along ?_
        simpa only [Nat.zero_add] using h
    _ = some (along hash entries key d) := by
        rw [Nat.zero_add, slotFor]
        rcases hend with ⟨v, hv⟩ | hnone
        · rw [hv]
          exact if_pos rfl
        · rw [hnone]

theorem Probing.homeSlotFor_some (hp : Probing hash entries) {v : V} (hi : entries[i]? = some (some (key, v))) :
    homeSlotFor hash entries key = some i := by
  obtain ⟨d, hd, hat, hpath⟩ := hp.reach i key v hi
  rw [← hat]
  refine homeSlotFor_eq hd ?_ (.inl ⟨v, hat ▸ hi⟩)
  intro c hc
  obtain ⟨⟨k, w⟩, hkv⟩ := hpath c hc
  refine ⟨(k, w), hkv, ?_⟩
  rintro rfl
  have hslot := hp.distinct _ _ _ _ _ hkv hi
  rw [← hat] at hslot
  have := along_inj (by omega) hd hslot
  omega

theorem homeSlotFor_new (hfree : ∃ i : Nat, entries[i]? = some none) (hno : ∀ v, some (key, v) ∉ entries) :
    homeSlotFor hash entries key = some (freeSlot entries entries.length (hash key % entries.length)) ∧
      entries[freeSlot entries entries.length (hash key % entries.length)]? = some none := by
  obtain ⟨d, hd, hslot, hnone, hpath⟩ := freeSlot_spec hfree hash key
  rw [hslot]
  refine ⟨homeSlotFor_eq hd ?_ (.inr hnone), hnone⟩
  intro c hc
  obtain ⟨⟨k, w⟩, hkv⟩ := hpath c hc
  refine ⟨(k, w), hkv, ?_⟩
  rintro rfl
  exact hno w (List.mem_of_getElem? hkv)

end

/-! ### The loop -/

def behind (entries : List (Option (K × V))) (start s : Nat) : Nat := (start + s) % entries.length

theorem behind_inj {start c d : Nat} (hc : c < entries.length) (hd : d < entries.length)
    (h : behind entries start c = behind entries start d) : c = d := by
  have hmod : c ≡ d [MOD entries.length] := Nat.ModEq.add_left_cancel' start h
  rwa [Nat.ModEq, Nat.mod_eq_of_lt hc, Nat.mod_eq_of_lt hd] at hmod

theorem along_add_of_behind {start s e : Nat} (h : along hash entries key e = behind entries start s) (t : Nat) :
    along hash entries key (e + t) = behind entries start (s + t) := by
  have hmod : hash key + e ≡ start + s [MOD entries.length] := h
  rw [along, behind, ← Nat.add_assoc, ← Nat.add_assoc]
  exact hmod.add_right t

def Reached (hash : K → Nat) (entries : List (Option (K × V))) (key : K) (i : Nat) : Prop :=
  ∃ d < entries.length, along hash entries key d = i ∧ ∀ e < d, Occupied entries (along hash entries key e)

/-- The slots of a table while the keys behind `start` are put back: the loop is `j` steps behind it, and will end at
    an empty slot `m` steps behind it. -/
structure Repairing (hash : K → Nat) (entries : List (Option (K × V))) (start m j : Nat) : Prop where
  distinct : ∀ (i j : Nat) k v w, entries[i]? = some (some (k, v)) → entries[j]? = some (some (k, w)) → i = j
  end_lt : m < entries.length
  le_end : j ≤ m
  ends : entries[behind entries start m]? = some none
  /-- What the loop has passed is in order. -/
  passed : ∀ u < j, ∀ k v, entries[behind entries start u]? = some (some (k, v)) →
    Reached hash entries k (behind entries start u)
  /-- Other keys are in order but for slots that the loop has passed. -/
  reach : ∀ (i : Nat) k v, entries[i]? = some (some (k, v)) →
    ∃ d < entries.length, along hash entries k d = i ∧
      ∀ e < d, Occupied entries (along hash entries k e) ∨ ∃ s < j, along hash entries k e = behind entries start s

section
variable {start m j : Nat}

theorem not_occupied (h : entries[i]? = some none) : ¬ Occupied entries i := by
  rintro ⟨kv, hkv⟩
  rw [h] at hkv
  cases hkv

theorem Repairing.probing (h : Repairing hash entries start m j) (hnone : entries[behind entries start j]? = some none) :
    Probing hash entries := by
  refine ⟨h.distinct, ?_⟩
  intro i k v hi
  obtain ⟨d, hd, hat, hpath⟩ := h.reach i k v hi
  have hlt := h.end_lt
  have hle := h.le_end
  by_cases hhole : ∃ e < d, ∃ s < j, along hash entries k e = behind entries start s
  · obtain ⟨e, he, s, hs, hes⟩ := hhole
    by_cases hinside : s + (d - e) < j
    · -- the key is in a slot that the loop has passed
      have hbehind := along_add_of_behind hes (d - e)
      rw [Nat.add_sub_cancel' he.le, hat] at hbehind
      subst hbehind
      exact h.passed _ hinside k v hi
    · -- the walk comes to the empty slot
      have hcross := along_add_of_behind hes (j - s)
      rw [Nat.add_sub_cancel' hs.le] at hcross
      by_cases hlast : e + (j - s) = d
      · rw [hlast, hat] at hcross
        rw [← hcross, hi] at hnone
        cases hnone
      · rcases hpath (e + (j - s)) (by omega) with hocc | ⟨s', hs', hat'⟩
        · rw [hcross] at hocc
          exact absurd hocc (not_occupied hnone)
        · have := behind_inj (by omega) (by omega) (hcross.symm.trans hat')
          omega
  · refine ⟨d, hd, hat, ?_⟩
    intro e he
    rcases hpath e he with hocc | ⟨s, hs, hes⟩
    · exact hocc
    · exact absurd ⟨e, he, s, hs, hes⟩ hhole

theorem Repairing.not_around (h : Repairing hash entries start m j) {u d e : Nat} (hu : u < j)
    (hat : along hash entries key d = behind entries start u)
    (hpath : ∀ e < d, Occupied entries (along hash entries key e)) (he : e < d) :
    along hash entries key e ≠ behind entries start j := by
  intro hej
  have hlt := h.end_lt
  have hle := h.le_end
  have hend := along_add_of_behind hej (d - e)
  rw [Nat.add_sub_cancel' he.le, hat] at hend
  -- all the way around
  have hsum : u + entries.length ≤ j + (d - e) := by
    by_contra hno
    by_cases hsmall : j + (d - e) < entries.length
    · have := behind_inj (by omega) hsmall hend
      omega
    · have hwrap : behind entries start (j + (d - e)) = behind entries start (j + (d - e) - entries.length) := by
        have hsub : start + (j + (d - e)) = start + (j + (d - e) - entries.length) + entries.length := by omega
        rw [behind, behind, hsub, Nat.add_mod_right]
      have := behind_inj (by omega) (by omega) (hend.trans hwrap)
      omega
  have hcross := along_add_of_behind hej (m - j)
  rw [Nat.add_sub_cancel' hle] at hcross
  have hocc := hpath (e + (m - j)) (by omega)
  rw [hcross] at hocc
  exact not_occupied h.ends hocc

def moved (entries : List (Option (K × V))) (q target : Nat) (entry : K × V) : List (Option (K × V)) :=
  (entries.set q none).set target (some entry)

section
variable {q target : Nat} {entry : K × V}

theorem length_moved : (moved entries q target entry).length = entries.length := by
  rw [moved, List.length_set, List.length_set]

theorem along_moved (k : K) (e : Nat) : along hash (moved entries q target entry) k e = along hash entries k e := by
  rw [along, along, length_moved]

theorem behind_moved (s : Nat) : behind (moved entries q target entry) start s = behind entries start s := by
  rw [behind, behind, length_moved]

theorem getElem?_moved (htarget : target < entries.length) (j : Nat) :
    (moved entries q target entry)[j]? =
      if target = j then some (some entry) else if q = j then entries[j]?.map fun _ => none else entries[j]? := by
  rw [moved, List.getElem?_set, List.length_set, List.getElem?_set]
  by_cases hj : target = j
  · subst hj
    rw [if_pos rfl, if_pos htarget, if_pos rfl]
  · rw [if_neg hj, if_neg hj]
    by_cases hq : q = j
    · subst hq
      rw [if_pos rfl, if_pos rfl]
      by_cases hlt : q < entries.length
      · rw [if_pos hlt, List.getElem?_eq_getElem hlt]
        rfl
      · rw [if_neg hlt, List.getElem?_eq_none (by omega)]
        rfl
    · rw [if_neg hq, if_neg hq]

theorem moved_eq_some (htarget : target < entries.length) {kv : K × V}
    (h : (moved entries q target entry)[i]? = some (some kv)) :
    i = target ∧ kv = entry ∨ i ≠ target ∧ i ≠ q ∧ entries[i]? = some (some kv) := by
  rw [getElem?_moved htarget] at h
  by_cases hi : target = i
  · rw [if_pos hi] at h
    cases h
    exact .inl ⟨hi.symm, rfl⟩
  · rw [if_neg hi] at h
    by_cases hq : q = i
    · rw [if_pos hq] at h
      cases hget : entries[i]? <;> rw [hget] at h <;> cases h
    · rw [if_neg hq] at h
      exact .inr ⟨fun heq => hi heq.symm, fun heq => hq heq.symm, h⟩

theorem Occupied.moved (htarget : target < entries.length) (h : Occupied entries i) (hq : i ≠ q) :
    Occupied (moved entries q target entry) i := by
  obtain ⟨kv, hkv⟩ := h
  rw [Occupied, getElem?_moved htarget]
  by_cases hi : target = i
  · rw [if_pos hi]
    exact ⟨_, rfl⟩
  · rw [if_neg hi, if_neg fun heq => hq heq.symm]
    exact ⟨kv, hkv⟩

end

theorem Repairing.exists_target (h : Repairing hash entries start m j) {v : V}
    (hq : entries[behind entries start j]? = some (some (key, v))) :
    ∃ c < entries.length, (entries.set (behind entries start j) none)[along hash entries key c]? = some none ∧
      (∀ e < c, Occupied entries (along hash entries key e) ∧ along hash entries key e ≠ behind entries start j) ∧
      ∃ s ≤ j, along hash entries key c = behind entries start s := by
  classical
  obtain ⟨d, hd, hat, hpath⟩ := h.reach _ key v hq
  have hlength : (entries.set (behind entries start j) none).length = entries.length := List.length_set
  have hslot : ∀ e, along hash entries key e < entries.length := along_lt (by omega)
  have hown : (entries.set (behind entries start j) none)[along hash entries key d]? = some none := by
    rw [hat, List.getElem?_set_self (hat ▸ hslot d)]
  have hex : ∃ c, (entries.set (behind entries start j) none)[along hash entries key c]? = some none := ⟨d, hown⟩
  have hle : Nat.find hex ≤ d := Nat.find_le hown
  have hbefore : ∀ e < Nat.find hex, Occupied entries (along hash entries key e) ∧
      along hash entries key e ≠ behind entries start j := by
    intro e he
    have hne : along hash entries key e ≠ behind entries start j := by
      intro heq
      have := along_inj (by omega) hd (heq.trans hat.symm)
      omega
    have hmin := Nat.find_min hex he
    rw [List.getElem?_set_ne hne.symm, List.getElem?_eq_getElem (hslot e), Option.some.injEq] at hmin
    obtain ⟨kv, hkv⟩ := Option.ne_none_iff_exists'.mp hmin
    exact ⟨⟨kv, by rw [List.getElem?_eq_getElem (hslot e), hkv]⟩, hne⟩
  refine ⟨Nat.find hex, by omega, Nat.find_spec hex, hbefore, ?_⟩
  rcases Nat.lt_or_eq_of_le hle with hlt | heq
  · have hne : behind entries start j ≠ along hash entries key (Nat.find hex) := by
      intro heq
      have := along_inj (by omega) hd (heq.symm.trans hat.symm)
      omega
    have hnone := Nat.find_spec hex
    rw [List.getElem?_set_ne hne] at hnone
    rcases hpath _ hlt with hocc | ⟨s, hs, hes⟩
    · exact absurd hocc (not_occupied hnone)
    · exact ⟨s, hs.le, hes⟩
  · exact ⟨j, le_rfl, heq ▸ hat⟩

theorem Repairing.lt_end (h : Repairing hash entries start m j) {kv : K × V}
    (hq : entries[behind entries start j]? = some (some kv)) : j < m := by
  refine Nat.lt_of_le_of_ne h.le_end ?_
  rintro rfl
  rw [h.ends] at hq
  cases hq

theorem Repairing.step [DecidableEq K] (h : Repairing hash entries start m j) {v : V}
    (hq : entries[behind entries start j]? = some (some (key, v))) :
    ∃ target < entries.length,
      homeSlotFor hash (entries.set (behind entries start j) none) key = some target ∧
      (entries.set (behind entries start j) none)[target]? = some none ∧
      Repairing hash (moved entries (behind entries start j) target (key, v)) start m (j + 1) := by
  obtain ⟨c, hc, hnone, hbefore, s, hs, hcs⟩ := h.exists_target hq
  have hjm := h.lt_end hq
  have hlt := h.end_lt
  have htarget : along hash entries key c < entries.length := along_lt (by omega) c
  refine ⟨along hash entries key c, htarget, ?_, hnone, ?_⟩
  · have halong : ∀ e, along hash (entries.set (behind entries start j) none) key e = along hash entries key e := by
      intro e
      rw [along, along, List.length_set]
    rw [← halong]
    refine homeSlotFor_eq (by rw [List.length_set]; exact hc) ?_ (.inr (by rw [halong]; exact hnone))
    intro e he
    obtain ⟨⟨⟨k, w⟩, hkv⟩, hne⟩ := hbefore e he
    refine ⟨(k, w), ?_, ?_⟩
    · rw [halong, List.getElem?_set_ne hne.symm]
      exact hkv
    · rintro rfl
      exact hne (h.distinct _ _ _ _ _ hkv hq)
  · -- the key in its new slot is in order
    have hnew : Reached hash (moved entries (behind entries start j) (along hash entries key c) (key, v)) key
        (along hash entries key c) := by
      refine ⟨c, by rw [length_moved]; exact hc, along_moved key c, ?_⟩
      intro e he
      rw [along_moved]
      exact (hbefore e he).1.moved htarget (hbefore e he).2
    refine ⟨?_, by rw [length_moved]; exact hlt, hjm, ?_, ?_, ?_⟩
    · intro a b k u w ha hb
      rcases moved_eq_some htarget ha with ⟨rfl, hentry⟩ | ⟨-, haq, haold⟩ <;>
        rcases moved_eq_some htarget hb with ⟨rfl, hentry'⟩ | ⟨-, hbq, hbold⟩
      · rfl
      · cases hentry
        exact absurd (h.distinct _ _ _ _ _ hbold hq) hbq
      · cases hentry'
        exact absurd (h.distinct _ _ _ _ _ haold hq) haq
      · exact h.distinct a b k u w haold hbold
    · have hne : along hash entries key c ≠ behind entries start m := by
        intro heq
        have := behind_inj (by omega) hlt (hcs.symm.trans heq)
        omega
      have hne' : behind entries start j ≠ behind entries start m := by
        intro heq
        have := behind_inj (by omega) hlt heq
        omega
      rw [behind_moved, getElem?_moved htarget, if_neg hne, if_neg hne']
      exact h.ends
    · intro u hu k w hkw
      rw [behind_moved] at hkw ⊢
      rcases moved_eq_some htarget hkw with ⟨hslot, hentry⟩ | ⟨-, huq, hold⟩
      · cases hentry
        rw [hslot]
        exact hnew
      · have huj : u < j := by
          refine Nat.lt_of_le_of_ne (by omega) ?_
          rintro rfl
          exact huq rfl
        obtain ⟨d, hd, hat, hpath⟩ := h.passed u huj k w hold
        refine ⟨d, by rw [length_moved]; exact hd, by rw [along_moved]; exact hat, ?_⟩
        intro e he
        rw [along_moved]
        exact (hpath e he).moved htarget (h.not_around huj hat hpath he)
    · intro i k w hi
      rcases moved_eq_some htarget hi with ⟨rfl, hentry⟩ | ⟨-, -, hold⟩
      · cases hentry
        obtain ⟨d, hd, hat, hpath⟩ := hnew
        exact ⟨d, hd, hat, fun e he => .inl (hpath e he)⟩
      · obtain ⟨d, hd, hat, hpath⟩ := h.reach i k w hold
        refine ⟨d, by rw [length_moved]; exact hd, by rw [along_moved]; exact hat, ?_⟩
        intro e he
        rw [along_moved]
        rcases hpath e he with hocc | ⟨s, hs, hes⟩
        · by_cases hej : along hash entries k e = behind entries start j
          · exact .inr ⟨j, by omega, by rw [behind_moved]; exact hej⟩
          · exact .inl (hocc.moved htarget hej)
        · exact .inr ⟨s, by omega, by rw [behind_moved]; exact hes⟩

variable {entry : K × V}

theorem mem_moved {q target : Nat} (hq : entries[q]? = some (some entry))
    (htarget : (entries.set q none)[target]? = some none) (hlt : target < entries.length) (kv : K × V) :
    some kv ∈ moved entries q target entry ↔ some kv ∈ entries := by
  rw [List.mem_iff_getElem?, List.mem_iff_getElem?]
  constructor
  · rintro ⟨i, hi⟩
    rcases moved_eq_some hlt hi with ⟨-, rfl⟩ | ⟨-, -, hold⟩
    · exact ⟨q, hq⟩
    · exact ⟨i, hold⟩
  · rintro ⟨i, hi⟩
    by_cases hiq : i = q
    · subst hiq
      rw [hq] at hi
      cases hi
      exact ⟨target, by rw [getElem?_moved hlt, if_pos rfl]⟩
    · have hit : target ≠ i := by
        rintro rfl
        rw [List.getElem?_set_ne (Ne.symm hiq), hi] at htarget
        cases htarget
      exact ⟨i, by rw [getElem?_moved hlt, if_neg hit, if_neg (Ne.symm hiq), hi]⟩

theorem countP_set_none {q : Nat} (hq : entries[q]? = some (some entry)) :
    (entries.set q none).countP Option.isSome + 1 = entries.countP Option.isSome := by
  obtain ⟨hlt, hget⟩ := List.getElem?_eq_some_iff.mp hq
  have hpos : 0 < entries.countP Option.isSome :=
    List.countP_pos_iff.mpr ⟨some entry, List.mem_of_getElem? hq, rfl⟩
  rw [List.countP_set hlt, hget]
  simp only [Option.isSome_some, Option.isSome_none, if_true, Bool.false_eq_true, if_false]
  omega

theorem countP_moved {q target : Nat} (hq : entries[q]? = some (some entry))
    (htarget : (entries.set q none)[target]? = some none) :
    (moved entries q target entry).countP Option.isSome = entries.countP Option.isSome := by
  obtain ⟨hlt, hget⟩ := List.getElem?_eq_some_iff.mp htarget
  have hcount := countP_set_none hq
  rw [moved, List.countP_set hlt, hget]
  simp only [Option.isSome_some, Option.isSome_none, if_true, Bool.false_eq_true, if_false]
  omega

theorem Repairing.reinsert [DecidableEq K] {t : Table K V} {fuel : Nat} (h : Repairing hash t.entries start m j)
    (hcount : t.count = t.entries.countP Option.isSome) (hfuel : m < j + fuel) :
    ∃ t', reinsert hash fuel t (behind t.entries start j) = some t' ∧ Probing hash t'.entries ∧
      (∀ kv, some kv ∈ t'.entries ↔ some kv ∈ t.entries) ∧ t'.count = t'.entries.countP Option.isSome ∧
      t'.count = t.count ∧ t'.entries.length = t.entries.length := by
  induction fuel generalizing t j with
  | zero => exact absurd h.le_end (by omega)
  | succ fuel ih =>
    have hslot : behind t.entries start j < t.entries.length := Nat.mod_lt _ (Nat.lt_of_le_of_lt (Nat.zero_le _) h.end_lt)
    rw [ProbeTable.reinsert, List.getElem?_eq_getElem hslot]
    have hat : t.entries[behind t.entries start j]? = some t.entries[behind t.entries start j] :=
      List.getElem?_eq_getElem hslot
    cases hget : t.entries[behind t.entries start j] with
    | none =>
      rw [hget] at hat
      exact ⟨t, rfl, h.probing hat, fun kv => Iff.rfl, hcount, rfl, rfl⟩
    | some entry =>
      obtain ⟨key, v⟩ := entry
      rw [hget] at hat
      obtain ⟨target, hlt, hfind, hnone, hstep⟩ := h.step hat
      have hpos := countP_set_none hat
      have hcount' : t.count - 1 + 1 = (moved t.entries (behind t.entries start j) target (key, v)).countP Option.isSome := by
        rw [countP_moved hat hnone]
        omega
      obtain ⟨t', hrun, hprobing, hmem, hcounts, hsame, hlength⟩ :=
        ih (t := ⟨moved t.entries (behind t.entries start j) target (key, v), t.count - 1 + 1⟩) hstep hcount' (by omega)
      have hnext : behind (moved t.entries (behind t.entries start j) target (key, v)) start (j + 1) =
          (behind t.entries start j + 1) % t.entries.length := by
        rw [behind_moved, behind, behind, Nat.mod_add_mod, Nat.add_assoc]
      refine ⟨t', ?_, hprobing, ?_, hcounts, ?_, ?_⟩
      · rw [hnext] at hrun
        simp only [hfind, Option.bind_some]
        exact hrun
      · intro kv
        rw [hmem, mem_moved hat hnone hlt]
      · have hpos' : 0 < t.count := by omega
        rw [hsame]
        exact Nat.sub_add_cancel hpos'
      · rw [hlength, length_moved]

end

theorem Probing.removeAt [DecidableEq K] {t : Table K V} (hp : Probing hash t.entries)
    (hcount : t.count = t.entries.countP Option.isSome) (hfree : ∃ i : Nat, t.entries[i]? = some none) {v : V}
    (hi : t.entries[i]? = some (some (key, v))) :
    ∃ t', t.removeAt hash i = some t' ∧ Probing hash t'.entries ∧
      (∀ kv, some kv ∈ t'.entries ↔ some kv ∈ t.entries ∧ kv.1 ≠ key) ∧
      t'.count = t'.entries.countP Option.isSome ∧ t'.count + 1 = t.count ∧ t'.entries.length = t.entries.length := by
  obtain ⟨hlt, -⟩ := List.getElem?_eq_some_iff.mp hi
  obtain ⟨m, hm, hend, -⟩ := exists_free hfree (fun _ => i) key
  have hstart : behind t.entries i 0 = i := Nat.mod_eq_of_lt hlt
  have hmpos : i ≠ behind t.entries i m := by
    intro heq
    rw [along, ← behind, ← heq, hi] at hend
    cases hend
  have hpos := countP_set_none hi
  have hother : ∀ (a : Nat) k w, (t.entries.set i none)[a]? = some (some (k, w)) →
      a ≠ i ∧ t.entries[a]? = some (some (k, w)) := by
    intro a k w ha
    by_cases hai : a = i
    · subst hai
      rw [List.getElem?_set_self hlt] at ha
      cases ha
    · rw [List.getElem?_set_ne (Ne.symm hai)] at ha
      exact ⟨hai, ha⟩
  have halong : ∀ k e, along hash (t.entries.set i none) k e = along hash t.entries k e := by
    intro k e
    rw [along, along, List.length_set]
  have hbehind : ∀ s, behind (t.entries.set i none) i s = behind t.entries i s := by
    intro s
    rw [behind, behind, List.length_set]
  have hrepair : Repairing hash (t.entries.set i none) i m 1 := by
    refine ⟨?_, by rw [List.length_set]; exact hm, ?_, ?_, ?_, ?_⟩
    · intro a b k u w ha hb
      exact hp.distinct a b k u w (hother a k u ha).2 (hother b k w hb).2
    · refine Nat.one_le_iff_ne_zero.mpr ?_
      rintro rfl
      exact hmpos hstart.symm
    · rw [hbehind, List.getElem?_set_ne hmpos]
      exact hend
    · intro u hu k w hkw
      obtain rfl : u = 0 := by omega
      rw [hbehind, hstart] at hkw
      exact absurd rfl (hother i k w hkw).1
    · intro a k w ha
      obtain ⟨-, hold⟩ := hother a k w ha
      obtain ⟨d, hd, hat, hpath⟩ := hp.reach a k w hold
      refine ⟨d, by rw [List.length_set]; exact hd, by rw [halong]; exact hat, ?_⟩
      intro e he
      rw [halong]
      by_cases hei : along hash t.entries k e = i
      · exact .inr ⟨0, by omega, by rw [hbehind, hstart, hei]⟩
      · obtain ⟨kv, hkv⟩ := hpath e he
        exact .inl ⟨kv, by rw [List.getElem?_set_ne (Ne.symm hei)]; exact hkv⟩
  have hcount' : t.count - 1 = (t.entries.set i none).countP Option.isSome := by omega
  have hrepair' : Repairing hash (⟨t.entries.set i none, t.count - 1⟩ : Table K V).entries i m 1 := hrepair
  obtain ⟨t', hrun, hprobing, hmem, hcounts, hsame, hlength⟩ :=
    hrepair'.reinsert hcount' (Nat.lt_add_left 1 hm)
  refine ⟨t', ?_, hprobing, ?_, hcounts, ?_, ?_⟩
  · rw [hbehind] at hrun
    exact hrun
  · intro kv
    rw [hmem, List.mem_iff_getElem?, List.mem_iff_getElem?]
    constructor
    · rintro ⟨a, ha⟩
      obtain ⟨hai, hold⟩ := hother a kv.1 kv.2 ha
      refine ⟨⟨a, hold⟩, ?_⟩
      intro hkey
      exact hai (hp.distinct a i key kv.2 v (hkey ▸ hold) hi)
    · rintro ⟨⟨a, ha⟩, hkey⟩
      have hai : i ≠ a := by
        rintro rfl
        rw [hi] at ha
        cases ha
        exact hkey rfl
      exact ⟨a, by rw [List.getElem?_set_ne hai]; exact ha⟩
  · rw [hsame]
    show t.count - 1 + 1 = t.count
    omega
  · rw [hlength, List.length_set]

end ProbeTable
