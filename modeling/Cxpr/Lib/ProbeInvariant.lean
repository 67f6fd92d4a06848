import Mathlib.Data.List.Nodup
import Mathlib.Data.Nat.Find
import Mathlib.Data.Nat.ModEq
import Cxpr.Lib.ProbeTable

/-! The invariant of hash tables with open addressing: no key is stored twice, and a key is stored behind its home slot
    with no empty slot between the two. A probe then finds exactly the keys that are there, whatever the hashes are. -/

namespace ProbeTable
variable {K V : Type} {hash : K → Nat} {entries : List (Option (K × V))} {key : K} {i : Nat}

def Occupied (entries : List (Option (K × V))) (i : Nat) : Prop := ∃ kv, entries[i]? = some (some kv)

def along (hash : K → Nat) (entries : List (Option (K × V))) (key : K) (d : Nat) : Nat :=
  (hash key + d) % entries.length

structure Probing (hash : K → Nat) (entries : List (Option (K × V))) : Prop where
  distinct : ∀ (i j : Nat) k v w, entries[i]? = some (some (k, v)) → entries[j]? = some (some (k, w)) → i = j
  reach : ∀ (i : Nat) k v, entries[i]? = some (some (k, v)) →
    ∃ d < entries.length, along hash entries k d = i ∧ ∀ e < d, Occupied entries (along hash entries k e)

theorem along_succ (d : Nat) :
    along hash entries key (d + 1) = (along hash entries key d + 1) % entries.length := by
  rw [along, along, Nat.mod_add_mod, Nat.add_assoc]

theorem along_lt (h : 0 < entries.length) (d : Nat) : along hash entries key d < entries.length := Nat.mod_lt _ h

theorem along_inj {c d : Nat} (hc : c < entries.length) (hd : d < entries.length)
    (h : along hash entries key c = along hash entries key d) : c = d := by
  have hmod : c ≡ d [MOD entries.length] := Nat.ModEq.add_left_cancel' (hash key) h
  rwa [Nat.ModEq, Nat.mod_eq_of_lt hc, Nat.mod_eq_of_lt hd] at hmod

theorem exists_along (hash : K → Nat) (hi : i < entries.length) (key : K) : ∃ d < entries.length, along hash entries key d = i := by
  have hpos : 0 < entries.length := by omega
  have hhome := Nat.mod_lt (hash key) hpos
  refine ⟨(i + (entries.length - hash key % entries.length)) % entries.length, Nat.mod_lt _ hpos, ?_⟩
  rw [along, Nat.add_mod_mod, ← Nat.mod_add_mod]
  have hsum : hash key % entries.length + (i + (entries.length - hash key % entries.length)) = i + entries.length := by
    omega
  rw [hsum, Nat.add_mod_right, Nat.mod_eq_of_lt hi]

theorem exists_free (hfree : ∃ i : Nat, entries[i]? = some none) (hash : K → Nat) (key : K) :
    ∃ d < entries.length, entries[along hash entries key d]? = some none ∧
      ∀ e < d, Occupied entries (along hash entries key e) := by
  classical
  obtain ⟨i, hi⟩ := hfree
  obtain ⟨hlt, -⟩ := List.getElem?_eq_some_iff.mp hi
  obtain ⟨d₀, hd₀, hat⟩ := exists_along hash hlt key
  have hex : ∃ d, entries[along hash entries key d]? = some none := ⟨d₀, by rw [hat, hi]⟩
  refine ⟨Nat.find hex, ?_, Nat.find_spec hex, ?_⟩
  · exact Nat.lt_of_le_of_lt (Nat.find_le (by rw [hat, hi])) hd₀
  · intro e he
    have hne := Nat.find_min hex he
    have hslot : along hash entries key e < entries.length := along_lt (by omega) e
    rw [List.getElem?_eq_getElem hslot, Option.some.injEq] at hne
    obtain ⟨kv, hkv⟩ := Option.ne_none_iff_exists'.mp hne
    exact ⟨kv, by rw [List.getElem?_eq_getElem hslot, hkv]⟩

theorem freeSlot_along {r fuel e : Nat} (h : ∀ c < r, Occupied entries (along hash entries key (e + c))) :
    freeSlot entries (r + fuel) (along hash entries key e) = freeSlot entries fuel (along hash entries key (e + r)) := by
  induction r generalizing e with
  | zero => rw [Nat.zero_add, Nat.add_zero]
  | succ r ih =>
    obtain ⟨kv, hkv⟩ := h 0 (by omega)
    rw [Nat.add_zero] at hkv
    rw [Nat.add_right_comm, freeSlot, hkv]
    simp only
    rw [← along_succ, ih, Nat.add_assoc, Nat.add_comm 1]
    intro c hc
    rw [Nat.add_assoc, Nat.add_comm 1]
    exact h (c + 1) (by omega)

theorem probe_along [DecidableEq K] {r fuel e : Nat}
    (h : ∀ c < r, ∃ kv, entries[along hash entries key (e + c)]? = some (some kv) ∧ kv.1 ≠ key) :
    probe entries key (r + fuel) (along hash entries key e) = probe entries key fuel (along hash entries key (e + r)) := by
  induction r generalizing e with
  | zero => rw [Nat.zero_add, Nat.add_zero]
  | succ r ih =>
    obtain ⟨kv, hkv, hne⟩ := h 0 (by omega)
    rw [Nat.add_zero] at hkv
    rw [Nat.add_right_comm, probe, hkv]
    simp only [if_neg hne]
    rw [← along_succ, ih, Nat.add_assoc, Nat.add_comm 1]
    intro c hc
    rw [Nat.add_assoc, Nat.add_comm 1]
    exact h (c + 1) (by omega)

section
variable [DecidableEq K]

theorem probe_home {d : Nat} (hd : d < entries.length)
    (h : ∀ c < d, ∃ kv, entries[along hash entries key c]? = some (some kv) ∧ kv.1 ≠ key) :
    ∃ fuel, probe entries key entries.length (hash key % entries.length) =
      probe entries key (fuel + 1) (along hash entries key d) := by
  refine ⟨entries.length - d - 1, ?_⟩
  have hfuel : entries.length = d + (entries.length - d - 1 + 1) := by omega
  calc probe entries key entries.length (along hash entries key 0)
      = probe entries key (d + (entries.length - d - 1 + 1)) (along hash entries key 0) :=
        congrArg (fun fuel => probe entries key fuel (along hash entries key 0)) hfuel
    _ = probe entries key (entries.length - d - 1 + 1) (along hash entries key (0 + d)) := by
        refine probe_along ?_
        simpa only [Nat.zero_add] using h
    _ = _ := by rw [Nat.zero_add]

theorem probe_eq_some (hp : Probing hash entries) {v : V} (hi : entries[i]? = some (some (key, v))) :
    probe entries key entries.length (hash key % entries.length) = some i := by
  obtain ⟨d, hd, hat, hpath⟩ := hp.reach i key v hi
  have hbefore : ∀ c < d, ∃ kv, entries[along hash entries key c]? = some (some kv) ∧ kv.1 ≠ key := by
    intro c hc
    obtain ⟨⟨k, w⟩, hkv⟩ := hpath c hc
    refine ⟨(k, w), hkv, ?_⟩
    rintro rfl
    have hslot := hp.distinct _ _ _ _ _ hkv hi
    rw [← hat] at hslot
    have := along_inj (by omega) hd hslot
    omega
  obtain ⟨fuel, hprobe⟩ := probe_home hd hbefore
  rw [hprobe, probe, hat, hi]
  exact if_pos rfl

theorem probe_eq_none (hfree : ∃ i : Nat, entries[i]? = some none) (hno : ∀ v, some (key, v) ∉ entries) :
    probe entries key entries.length (hash key % entries.length) = none := by
  obtain ⟨d, hd, hnone, hpath⟩ := exists_free hfree hash key
  have hbefore : ∀ c < d, ∃ kv, entries[along hash entries key c]? = some (some kv) ∧ kv.1 ≠ key := by
    intro c hc
    obtain ⟨⟨k, w⟩, hkv⟩ := hpath c hc
    refine ⟨(k, w), hkv, ?_⟩
    rintro rfl
    exact hno w (List.mem_of_getElem? hkv)
  obtain ⟨fuel, hprobe⟩ := probe_home hd hbefore
  rw [hprobe, probe, hnone]

end

theorem freeSlot_spec (hfree : ∃ i : Nat, entries[i]? = some none) (hash : K → Nat) (key : K) :
    ∃ d < entries.length, freeSlot entries entries.length (hash key % entries.length) = along hash entries key d ∧
      entries[along hash entries key d]? = some none ∧ ∀ e < d, Occupied entries (along hash entries key e) := by
  obtain ⟨d, hd, hnone, hpath⟩ := exists_free hfree hash key
  refine ⟨d, hd, ?_, hnone, hpath⟩
  have hfuel : entries.length = d + (entries.length - d - 1 + 1) := by omega
  calc freeSlot entries entries.length (along hash entries key 0)
      = freeSlot entries (d + (entries.length - d - 1 + 1)) (along hash entries key 0) :=
        congrArg (fun fuel => freeSlot entries fuel (along hash entries key 0)) hfuel
    _ = freeSlot entries (entries.length - d - 1 + 1) (along hash entries key (0 + d)) := by
        refine freeSlot_along ?_
        simpa only [Nat.zero_add] using hpath
    _ = along hash entries key d := by rw [Nat.zero_add, freeSlot, hnone]

theorem length_place (hash : K → Nat) (entries : List (Option (K × V))) (entry : K × V) :
    (place hash entries entry).length = entries.length := List.length_set

theorem Probing.place (hp : Probing hash entries) (hfree : ∃ i : Nat, entries[i]? = some none) {v : V}
    (hno : ∀ w, some (key, w) ∉ entries) :
    Probing hash (place hash entries (key, v)) ∧
      (∀ kv, some kv ∈ ProbeTable.place hash entries (key, v) ↔ kv = (key, v) ∨ some kv ∈ entries) ∧
      (ProbeTable.place hash entries (key, v)).countP Option.isSome = entries.countP Option.isSome + 1 := by
  obtain ⟨d, hd, hslot, hnone, hpath⟩ := freeSlot_spec hfree hash key
  have hat : along hash entries key d < entries.length := along_lt (by omega) d
  have hget : ∀ j : Nat, (ProbeTable.place hash entries (key, v))[j]? =
      if along hash entries key d = j then some (some (key, v)) else entries[j]? := by
    intro j
    rw [ProbeTable.place, hslot, List.getElem?_set]
    by_cases hj : along hash entries key d = j
    · subst hj
      simp [hat]
    · simp [hj]
  have halong : ∀ k e, along hash (ProbeTable.place hash entries (key, v)) k e = along hash entries k e := by
    intro k e
    rw [along, along, length_place]
  have hkeeps : ∀ j, Occupied entries j → Occupied (ProbeTable.place hash entries (key, v)) j := by
    rintro j ⟨kv, hkv⟩
    rw [Occupied, hget]
    split
    · exact ⟨_, rfl⟩
    · exact ⟨kv, hkv⟩
  refine ⟨⟨?_, ?_⟩, ?_, ?_⟩
  · intro i j k u w hi hj
    rw [hget] at hi hj
    split at hi <;> split at hj
    · omega
    · cases hi
      exact absurd (List.mem_of_getElem? hj) (hno w)
    · cases hj
      exact absurd (List.mem_of_getElem? hi) (hno u)
    · exact hp.distinct i j k u w hi hj
  · intro i k u hi
    simp only [halong, length_place]
    rw [hget] at hi
    split at hi
    · rename_i hi'
      cases hi
      exact ⟨d, hd, hi', fun e he => hkeeps _ (hpath e he)⟩
    · obtain ⟨c, hc, hi', hbefore⟩ := hp.reach i k u hi
      exact ⟨c, hc, hi', fun e he => hkeeps _ (hbefore e he)⟩
  · intro kv
    rw [List.mem_iff_getElem?, List.mem_iff_getElem?]
    constructor
    · rintro ⟨j, hj⟩
      rw [hget] at hj
      split at hj
      · cases hj
        exact .inl rfl
      · exact .inr ⟨j, hj⟩
    · rintro (rfl | ⟨j, hj⟩)
      · exact ⟨_, by rw [hget, if_pos rfl]⟩
      · refine ⟨j, ?_⟩
        rw [hget, if_neg, hj]
        rintro rfl
        rw [hnone] at hj
        cases hj
  · rw [List.getElem?_eq_getElem hat, Option.some.injEq] at hnone
    rw [ProbeTable.place, hslot, List.countP_set hat, hnone]
    simp

theorem probing_replicate (hash : K → Nat) (n : Nat) : Probing hash (List.replicate n (none : Option (K × V))) := by
  constructor
  · intro i j k v w hi
    simp [List.getElem?_replicate] at hi
  · intro i k v hi
    simp [List.getElem?_replicate] at hi

theorem exists_none_of_countP_lt (h : entries.countP Option.isSome < entries.length) :
    ∃ i : Nat, entries[i]? = some none := by
  by_contra hno
  have hall : ∀ x ∈ entries, x.isSome = true := by
    intro x hx
    cases x with
    | some kv => rfl
    | none => exact absurd (List.mem_iff_getElem?.mp hx) hno
  rw [List.countP_eq_length.mpr hall] at h
  exact Nat.lt_irrefl _ h

theorem Probing.foldl_place {kvs : List (K × V)} (hp : Probing hash entries) (hnodup : (kvs.map Prod.fst).Nodup)
    (hno : ∀ kv ∈ kvs, ∀ w, some (kv.1, w) ∉ entries)
    (hroom : entries.countP Option.isSome + kvs.length < entries.length) :
    Probing hash (kvs.foldl (ProbeTable.place hash) entries) ∧
      (∀ kv, some kv ∈ kvs.foldl (ProbeTable.place hash) entries ↔ kv ∈ kvs ∨ some kv ∈ entries) ∧
      (kvs.foldl (ProbeTable.place hash) entries).countP Option.isSome = entries.countP Option.isSome + kvs.length ∧
      (kvs.foldl (ProbeTable.place hash) entries).length = entries.length := by
  induction kvs generalizing entries with
  | nil => exact ⟨hp, by simp, rfl, rfl⟩
  | cons kv kvs ih =>
    obtain ⟨key, v⟩ := kv
    rw [List.map_cons, List.nodup_cons] at hnodup
    rw [List.length_cons] at hroom
    have hfree : ∃ i : Nat, entries[i]? = some none := exists_none_of_countP_lt (by omega)
    have hnew : ∀ w, some (key, w) ∉ entries := hno (key, v) (by simp)
    obtain ⟨hp', hmem, hcount⟩ := hp.place hfree (v := v) hnew
    have hlength := length_place hash entries (key, v)
    have hno' : ∀ kv ∈ kvs, ∀ w, some (kv.1, w) ∉ ProbeTable.place hash entries (key, v) := by
      intro kv hkv w hw
      rcases (hmem _).mp hw with heq | hold
      · obtain ⟨hkey, -⟩ := Prod.mk.inj heq
        exact hnodup.1 (List.mem_map.mpr ⟨kv, hkv, hkey⟩)
      · exact hno kv (by simp [hkv]) w hold
    obtain ⟨h₁, h₂, h₃, h₄⟩ := ih hp' hnodup.2 hno' (by omega)
    refine ⟨h₁, ?_, ?_, ?_⟩
    · intro kv
      rw [List.foldl_cons, h₂, hmem, List.mem_cons]
      tauto
    · rw [List.foldl_cons, h₃, hcount, List.length_cons]
      omega
    · rw [List.foldl_cons, h₄, hlength]

theorem Probing.nodup (hp : Probing hash entries) : ((entries.filterMap id).map Prod.fst).Nodup := by
  rw [List.Nodup, List.pairwise_map, List.pairwise_filterMap, List.pairwise_iff_getElem]
  rintro i j hi hj hij ⟨k, v⟩ hv ⟨k', w⟩ hw (rfl : k = k')
  have heq := hp.distinct i j k v w (by rw [List.getElem?_eq_getElem hi]; exact congrArg some hv)
    (by rw [List.getElem?_eq_getElem hj]; exact congrArg some hw)
  omega

theorem length_filterMap_id (entries : List (Option (K × V))) :
    (entries.filterMap id).length = entries.countP Option.isSome := by
  rw [List.length_filterMap_eq_countP]
  rfl

theorem Probing.grow (hp : Probing hash entries) (hroom : 0 < entries.length) :
    Probing hash (grow hash entries) ∧ (∀ kv, some kv ∈ ProbeTable.grow hash entries ↔ some kv ∈ entries) ∧
      (ProbeTable.grow hash entries).countP Option.isSome = entries.countP Option.isSome ∧
      (ProbeTable.grow hash entries).length = 2 * entries.length := by
  have hle : entries.countP Option.isSome ≤ entries.length := List.countP_le_length
  have hzero : (List.replicate (2 * entries.length) (none : Option (K × V))).countP Option.isSome = 0 := by
    simp [List.countP_replicate]
  obtain ⟨h₁, h₂, h₃, h₄⟩ := (probing_replicate hash (2 * entries.length)).foldl_place hp.nodup (by simp)
    (by rw [hzero, length_filterMap_id, List.length_replicate]; omega)
  refine ⟨h₁, ?_, ?_, ?_⟩
  · intro kv
    rw [ProbeTable.grow, h₂]
    simp
  · rw [ProbeTable.grow, h₃, hzero, length_filterMap_id, Nat.zero_add]
  · rw [ProbeTable.grow, h₄, List.length_replicate]

theorem Probing.setAt {t : Table K V} (hp : Probing hash t.entries) {v : V}
    (hi : t.entries[i]? = some (some (key, v))) (value : V) :
    Probing hash (t.setAt i value).entries ∧
      (∀ kv, some kv ∈ (t.setAt i value).entries ↔ kv = (key, value) ∨ kv.1 ≠ key ∧ some kv ∈ t.entries) ∧
      (t.setAt i value).entries.countP Option.isSome = t.entries.countP Option.isSome := by
  have hget : ∀ j : Nat, (t.setAt i value).entries[j]? =
      if i = j then some (some (key, value)) else t.entries[j]? := by
    intro j
    rw [Table.setAt, List.getElem?_modify]
    by_cases hj : i = j
    · subst hj
      simp [hi]
    · simp [hj]
  have hlength : (t.setAt i value).entries.length = t.entries.length := List.length_modify ..
  have halong : ∀ k e, along hash (t.setAt i value).entries k e = along hash t.entries k e := by
    intro k e
    rw [along, along, hlength]
  have hkeys : ∀ (j : Nat) k w, (t.setAt i value).entries[j]? = some (some (k, w)) → ∃ u, t.entries[j]? = some (some (k, u)) := by
    intro j k w hj
    rw [hget] at hj
    split at hj
    · rename_i hij
      cases hj
      exact ⟨v, hij ▸ hi⟩
    · exact ⟨w, hj⟩
  have hkeeps : ∀ j, Occupied t.entries j → Occupied (t.setAt i value).entries j := by
    rintro j ⟨kv, hkv⟩
    rw [Occupied, hget]
    split
    · exact ⟨_, rfl⟩
    · exact ⟨kv, hkv⟩
  refine ⟨⟨?_, ?_⟩, ?_, ?_⟩
  · intro a b k u w ha hb
    obtain ⟨u', ha'⟩ := hkeys a k u ha
    obtain ⟨w', hb'⟩ := hkeys b k w hb
    exact hp.distinct a b k u' w' ha' hb'
  · intro a k u ha
    obtain ⟨u', ha'⟩ := hkeys a k u ha
    obtain ⟨d, hd, hat, hpath⟩ := hp.reach a k u' ha'
    exact ⟨d, by omega, by rw [halong, hat], fun e he => by rw [halong]; exact hkeeps _ (hpath e he)⟩
  · intro kv
    rw [List.mem_iff_getElem?, List.mem_iff_getElem?]
    constructor
    · rintro ⟨j, hj⟩
      rw [hget] at hj
      split at hj
      · cases hj
        exact .inl rfl
      · rename_i hij
        refine .inr ⟨?_, j, hj⟩
        rintro rfl
        exact hij (hp.distinct i j _ _ _ hi hj)
    · rintro (rfl | ⟨hne, j, hj⟩)
      · exact ⟨i, by rw [hget, if_pos rfl]⟩
      · refine ⟨j, ?_⟩
        rw [hget, if_neg, hj]
        rintro rfl
        rw [hi] at hj
        cases hj
        exact hne rfl
  · have hcount : ∀ l : List (Option (K × V)), ∀ n, (l.modify n (Option.map fun e => (e.1, value))).countP Option.isSome =
        l.countP Option.isSome := by
      intro l
      induction l with
      | nil => intro n; cases n <;> rfl
      | cons x l ih =>
        intro n
        cases n with
        | zero => cases x <;> simp
        | succ n => simp [List.countP_cons, ih]
    exact hcount t.entries i

end ProbeTable
