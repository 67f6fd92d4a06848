import Mathlib.Data.List.Nodup

/-! One item of a list for each key, as a table holds them that is filled with the first item of every key. -/

variable {α κ γ : Type}

structure Representatives (key : α → κ) (xs ys : List α) : Prop where
  mem : ∀ y ∈ ys, y ∈ xs
  covers : ∀ x ∈ xs, ∃ y ∈ ys, key y = key x
  nodup : (ys.map key).Nodup

namespace Representatives
variable {key : α → κ} {content : α → γ} {xs ys : List α} {x : α}

theorem nil : Representatives key [] ([] : List α) where
  mem := by simp
  covers := by simp
  nodup := by simp

theorem seen (h : Representatives key xs ys) (hx : ∃ y ∈ ys, key y = key x) : Representatives key (xs ++ [x]) ys where
  mem y hy := List.mem_append_left _ (h.mem y hy)
  covers z hz := by
    rcases List.mem_append.mp hz with hz | hz
    · exact h.covers z hz
    · rw [List.mem_singleton.mp hz]
      exact hx
  nodup := h.nodup

theorem new (h : Representatives key xs ys) (hx : ∀ y ∈ ys, key y ≠ key x) :
    Representatives key (xs ++ [x]) (ys ++ [x]) where
  mem y hy := by
    rcases List.mem_append.mp hy with hy | hy
    · exact List.mem_append_left _ (h.mem y hy)
    · exact List.mem_append_right _ hy
  covers z hz := by
    rcases List.mem_append.mp hz with hz | hz
    · obtain ⟨y, hy, hkey⟩ := h.covers z hz
      exact ⟨y, List.mem_append_left _ hy, hkey⟩
    · rw [List.mem_singleton.mp hz]
      exact ⟨x, by simp, rfl⟩
  nodup := by
    rw [List.map_append]
    refine List.nodup_append.mpr ⟨h.nodup, by simp, fun k hk l hl => ?_⟩
    obtain ⟨y, hy, rfl⟩ := List.mem_map.mp hk
    obtain rfl : l = key x := by simpa using hl
    exact hx y hy

theorem eq_of_key (h : Representatives key xs ys) {y z : α} (hy : y ∈ ys) (hz : z ∈ ys) (hkey : key y = key z) : y = z :=
  List.inj_on_of_nodup_map h.nodup hy hz hkey

theorem faithful_iff (h : Representatives key xs ys) :
    (∀ x ∈ xs, ∃ y ∈ ys, key y = key x ∧ content y = content x) ∧ (ys.map content).Nodup ↔
      ∀ x ∈ xs, ∀ y ∈ xs, key x = key y ↔ content x = content y := by
  constructor
  · rintro ⟨hown, hnodup⟩ x hx y hy
    obtain ⟨x', hx', hkeyx, hcontentx⟩ := hown x hx
    obtain ⟨y', hy', hkeyy, hcontenty⟩ := hown y hy
    constructor
    · intro hkey
      have heq : x' = y' := h.eq_of_key hx' hy' (by rw [hkeyx, hkeyy, hkey])
      rw [← hcontentx, ← hcontenty, heq]
    · intro hcontent
      have heq : x' = y' := List.inj_on_of_nodup_map hnodup hx' hy' (by rw [hcontentx, hcontenty, hcontent])
      rw [← hkeyx, ← hkeyy, heq]
  · intro hsame
    constructor
    · intro x hx
      obtain ⟨y, hy, hkey⟩ := h.covers x hx
      exact ⟨y, hy, hkey, (hsame y (h.mem y hy) x hx).mp hkey⟩
    · have hnodup : ys.Nodup := List.Nodup.of_map key h.nodup
      refine hnodup.map_on fun y hy z hz hcontent => ?_
      exact h.eq_of_key hy hz ((hsame y (h.mem y hy) z (h.mem z hz)).mpr hcontent)

end Representatives
