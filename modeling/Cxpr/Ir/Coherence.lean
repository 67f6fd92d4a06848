import Cxpr.Ir.LookupCache

/-! The lookup cache is coherent in every run in which the cache tells the chains apart. A recorded place stays right for
    as long as the stamps on the way to it are the recorded ones, because every change that could move a name has a new
    stamp. -/

namespace Cxpr.Ir.LookupCache
open Memory ProbeTable
variable {D : Type}

structure Same (load : Load) (c c' : Cell D) : Prop where
  stamp : (load.store c').stamp = (load.store c).stamp
  localBool : load.localBool c = none → load.localBool c' = none
  find : load.find c' = load.find c

section
variable {load : Load} {c : Cell D} {heap : Heap D} {call : Call D} {clock : Nat} {fresh : Addr}

theorem Same.refl (load : Load) (c : Cell D) : Same load c c := ⟨rfl, id, rfl⟩

theorem store_set_cases (s : Store D) (name : String) (d : D) :
    (s.set clock fresh name d).stamp = clock ∨ (s.set clock fresh name d).stamp = s.stamp ∧
      ∀ key, (s.set clock fresh name d).table.find hashSlot key = s.table.find hashSlot key := by
  unfold Store.set
  split
  · exact .inr ⟨rfl, fun key => find_setAt _ _ _⟩
  · exact .inl rfl

theorem localBool_erase {bools : NameMap Bool} {name key : String} (h : bools.lookup key = none) :
    (bools.erase name).lookup key = none := by
  by_cases hkey : key = name
  · subst hkey
    exact AList.lookup_erase _ _
  · rw [AList.lookup_erase_ne hkey]
    exact h

theorem write_cases (load : Load) (c : Cell D) (w : Memory.Write D) :
    (load.store (c.write clock fresh w)).stamp = clock ∨ Same load c (c.write clock fresh w) := by
  obtain ⟨key, param⟩ := load
  cases w with
  | value name v =>
    cases param with
    | true => cases v <;> exact .inr ⟨rfl, fun _ => rfl, rfl⟩
    | false =>
      cases v with
      | number d =>
        rcases store_set_cases c.vars name d with h | ⟨hstamp, hfind⟩
        · exact .inl h
        · exact .inr ⟨hstamp, localBool_erase, hfind key⟩
      | bool | int64 | string | array => exact .inl rfl
      | struct => exact .inr ⟨rfl, localBool_erase, rfl⟩
      | null | timestamp | duration => exact .inr (.refl _ c)
  | param name v =>
    cases param with
    | false => cases v <;> exact .inr ⟨rfl, id, rfl⟩
    | true =>
      cases v with
      | number d =>
        rcases store_set_cases c.params name d with h | ⟨hstamp, hfind⟩
        · exact .inl h
        · exact .inr ⟨hstamp, fun _ => rfl, hfind key⟩
      | bool | int64 | string | struct | array => exact .inl rfl
      | null | timestamp | duration => exact .inr (.refl _ c)
  | slot slot d =>
    cases param with
    | true => exact .inr ⟨rfl, fun _ => rfl, rfl⟩
    | false => exact .inr ⟨rfl, id, find_setAt _ _ _⟩
  | clear => cases param <;> exact .inl rfl
  | expressionScope scope => cases param <;> exact .inr ⟨rfl, id, rfl⟩

theorem write_born (c : Cell D) (w : Memory.Write D) : (c.write clock fresh w).born = c.born := by
  cases w with
  | value name v | param name v => cases v <;> rfl
  | _ => rfl

theorem write_parent (c : Cell D) (w : Memory.Write D) : (c.write clock fresh w).parent = c.parent := by
  cases w with
  | value name v | param name v => cases v <;> rfl
  | _ => rfl

theorem store_resetEmptyOverlay (load : Load) (c : Cell D) (parent : Option Addr) :
    (load.store (c.resetEmptyOverlay clock parent)).stamp = clock := by
  obtain ⟨key, param⟩ := load
  cases param <;> rfl

theorem store_new (load : Load) (vars params : Addr) (parent : Option Addr) :
    (load.store (Cell.new clock vars params parent : Cell D)).stamp = clock := by
  obtain ⟨key, param⟩ := load
  cases param <;> rfl

end

def Childless (heap : Heap D) (t : Addr) : Prop := ∀ b c, heap.cells b = some c → c.parent ≠ some t

structure HeapOk (heap : Heap D) : Prop where
  born : ∀ a c, heap.cells a = some c → c.born < heap.clock
  stamp : ∀ (load : Load) a c, heap.cells a = some c → (load.store c).stamp < heap.clock
  unique : ∀ (load : Load) a b c d, heap.cells a = some c → heap.cells b = some d →
    (load.store c).stamp = (load.store d).stamp → a = b
  parent : ∀ a c p, heap.cells a = some c → c.parent = some p → p ∉ heap.recycled ∧
    ∃ d, heap.cells p = some d ∧ d.born < c.born
  nodup : heap.recycled.Nodup

inductive Left (heap : Heap D) (t : Addr) : Option (Cell D) → Prop
  | freed (hchild : Childless heap t) : Left heap t none
  | renewed {c' : Cell D} (hchild : Childless heap t) (hborn : c'.born = heap.clock)
      (hstamp : ∀ load : Load, (load.store c').stamp = heap.clock)
      (hparent : ∀ p, c'.parent = some p → heap.InUse p ∧ p ≠ t) : Left heap t (some c')
  | written {c c' : Cell D} (hc : heap.cells t = some c) (hborn : c'.born = c.born) (hparent : c'.parent = c.parent)
      (hload : ∀ load : Load, (load.store c').stamp = heap.clock ∨ Same load c c') : Left heap t (some c')

structure Touches (heap heap' : Heap D) (t : Addr) : Prop where
  clock : heap'.clock = heap.clock + 1
  other : ∀ b, b ≠ t → heap'.cells b = heap.cells b
  left : Left heap t (heap'.cells t)
  nodup : heap'.recycled.Nodup
  recycled : ∀ r ∈ heap'.recycled, r ∈ heap.recycled ∨ r = t ∧ Childless heap t

section
variable {heap heap' : Heap D} {call : Call D} {t : Addr}

theorem childless_of_none (hok : HeapOk heap) (h : heap.cells t = none) : Childless heap t := by
  intro b c hb hparent
  obtain ⟨-, d, hd, -⟩ := hok.parent b c t hb hparent
  rw [h] at hd
  cases hd

theorem childless_of_recycled (hok : HeapOk heap) (h : t ∈ heap.recycled) : Childless heap t :=
  fun b c hb hparent => (hok.parent b c t hb hparent).1 h

theorem put_other (heap : Heap D) (t : Addr) (c : Option (Cell D)) : ∀ b, b ≠ t → (heap.put t c).cells b = heap.cells b :=
  fun _ hb => Function.update_of_ne hb _ _

theorem put_self (heap : Heap D) (t : Addr) (c : Option (Cell D)) : (heap.put t c).cells t = c :=
  Function.update_self _ _ _

theorem inUse_ne_of_none {p : Addr} (hp : heap.InUse p) (h : heap.cells t = none) : p ≠ t := by
  rintro rfl
  rw [Heap.InUse, h] at hp
  exact absurd hp.1 (by simp)

theorem after_touches (hok : HeapOk heap) (h : heap.Legal call) : ∃ t, Touches heap (heap.after call) t := by
  cases call with
  | new a vars params =>
    refine ⟨a, rfl, put_other _ _ _, ?_, hok.nodup, fun r hr => .inl hr⟩
    rw [Heap.after, put_self]
    exact .renewed (childless_of_none hok h) rfl (fun load => store_new load _ _ _) (by simp [Cell.new])
  | overlayNew parent a vars params =>
    obtain ⟨hparent, hnone⟩ := h
    cases hrec : heap.recycled with
    | nil =>
      refine ⟨a, ?_⟩
      simp only [Heap.after, hrec]
      refine ⟨rfl, put_other _ _ _, ?_, hok.nodup, fun r hr => .inl hr⟩
      rw [put_self]
      refine .renewed (childless_of_none hok hnone) rfl (fun load => store_new load _ _ _) ?_
      rintro p ⟨rfl⟩
      exact ⟨hparent, inUse_ne_of_none hparent hnone⟩
    | cons r rest =>
      refine ⟨r, ?_⟩
      simp only [Heap.after, hrec]
      have hnodup := hok.nodup
      rw [hrec, List.nodup_cons] at hnodup
      have hr : r ∈ heap.recycled := by simp [hrec]
      refine ⟨rfl, put_other _ _ _, ?_, hnodup.2, fun b hb => .inl (by simp [hrec, hb])⟩
      show Left heap r ((heap.put r _).cells r)
      rw [put_self]
      cases heap.cells r with
      | none => exact .freed (childless_of_recycled hok hr)
      | some c =>
        refine .renewed (childless_of_recycled hok hr) rfl (fun load => store_resetEmptyOverlay load c _) ?_
        rintro p ⟨rfl⟩
        refine ⟨hparent, ?_⟩
        rintro rfl
        exact hparent.2 hr
  | free a =>
    obtain ⟨⟨hsome, hnot⟩, hchild⟩ := h
    obtain ⟨c, hc⟩ := Option.isSome_iff_exists.mp hsome
    refine ⟨a, ?_⟩
    simp only [Heap.after, hc]
    split
    · refine ⟨rfl, put_other _ _ _, ?_, List.nodup_cons.mpr ⟨hnot, hok.nodup⟩, ?_⟩
      · show Left heap a ((heap.put a _).cells a)
        rw [put_self]
        exact .renewed hchild rfl (fun load => store_resetEmptyOverlay load c _) (by simp [Cell.resetEmptyOverlay])
      · intro r hr
        rcases List.mem_cons.mp hr with rfl | hr
        · exact .inr ⟨rfl, hchild⟩
        · exact .inl hr
    · refine ⟨rfl, put_other _ _ _, ?_, hok.nodup, fun r hr => .inl hr⟩
      rw [put_self]
      exact .freed hchild
  | write a fresh w =>
    obtain ⟨c, hc⟩ := Option.isSome_iff_exists.mp h.1
    refine ⟨a, rfl, put_other _ _ _, ?_, hok.nodup, fun r hr => .inl hr⟩
    rw [Heap.after, put_self, hc]
    exact .written hc (write_born c w) (write_parent c w) fun load => write_cases load c w

theorem Touches.cases {a : Addr} {c' : Cell D} (ht : Touches heap heap' t) (h : heap'.cells a = some c') :
    a ≠ t ∧ heap.cells a = some c' ∨ a = t ∧ Left heap t (some c') := by
  by_cases ha : a = t
  · subst ha
    exact .inr ⟨rfl, h ▸ ht.left⟩
  · exact .inl ⟨ha, (ht.other a ha).symm.trans h⟩

theorem Touches.stamp_cases {a : Addr} {c' : Cell D} (load : Load) (ht : Touches heap heap' t)
    (h : heap'.cells a = some c') :
    a = t ∧ (load.store c').stamp = heap.clock ∨ ∃ c, heap.cells a = some c ∧ Same load c c' := by
  rcases ht.cases h with ⟨-, hc⟩ | ⟨rfl, hleft⟩
  · exact .inr ⟨c', hc, .refl load c'⟩
  · cases hleft with
    | renewed hchild hborn hstamp hparent => exact .inl ⟨rfl, hstamp load⟩
    | written hc hborn hparent hload =>
      rcases hload load with hstamp | hsame
      · exact .inl ⟨rfl, hstamp⟩
      · exact .inr ⟨_, hc, hsame⟩

theorem HeapOk.touch (hok : HeapOk heap) (ht : Touches heap heap' t) : HeapOk heap' where
  born a c' h := by
    rw [ht.clock]
    rcases ht.cases h with ⟨-, hc⟩ | ⟨rfl, hleft⟩
    · have := hok.born a c' hc
      omega
    · cases hleft with
      | renewed hchild hborn => omega
      | written hc hborn =>
        have := hok.born _ _ hc
        omega
  stamp load a c' h := by
    rw [ht.clock]
    rcases ht.stamp_cases load h with ⟨-, hstamp⟩ | ⟨c, hc, hsame⟩
    · omega
    · have := hok.stamp load a c hc
      have := hsame.stamp
      omega
  unique load a b c' d' ha hb heq := by
    rcases ht.stamp_cases load ha with ⟨rfl, hstamp⟩ | ⟨c, hc, hsame⟩
    all_goals rcases ht.stamp_cases load hb with ⟨rfl, hstamp'⟩ | ⟨d, hd, hsame'⟩
    · rfl
    · have := hok.stamp load b d hd
      have := hsame'.stamp
      omega
    · have := hok.stamp load a c hc
      have := hsame.stamp
      omega
    · exact hok.unique load a b c d hc hd (by rw [← hsame.stamp, ← hsame'.stamp, heq])
  parent a c' p h hp := by
    -- an old parent of an old context is still there
    have hold : ∀ {c : Cell D}, heap.cells a = some c → c.parent = some p →
        p ∉ heap'.recycled ∧ ∃ d, heap'.cells p = some d ∧ d.born < c.born := by
      intro c hc hparent
      obtain ⟨hnot, d, hd, hlt⟩ := hok.parent a c p hc hparent
      refine ⟨fun hr => ?_, ?_⟩
      · rcases ht.recycled p hr with hr | ⟨rfl, hchild⟩
        · exact hnot hr
        · exact hchild a c hc hparent
      · by_cases hpt : p = t
        · subst hpt
          have hleft := ht.left
          cases hcell : heap'.cells p with
          | none =>
            rw [hcell] at hleft
            cases hleft with
            | freed hchild => exact absurd hparent (hchild a c hc)
          | some d' =>
            rw [hcell] at hleft
            cases hleft with
            | renewed hchild => exact absurd hparent (hchild a c hc)
            | written hd' hborn =>
              rw [hd] at hd'
              cases hd'
              exact ⟨d', rfl, by omega⟩
        · exact ⟨d, (ht.other p hpt).trans hd, hlt⟩
    rcases ht.cases h with ⟨-, hc⟩ | ⟨rfl, hleft⟩
    · exact hold hc hp
    · cases hleft with
      | renewed hchild hborn hstamp hparent =>
        obtain ⟨⟨hsome, hnot⟩, hne⟩ := hparent p hp
        obtain ⟨d, hd⟩ := Option.isSome_iff_exists.mp hsome
        refine ⟨fun hr => ?_, d, (ht.other p hne).trans hd, ?_⟩
        · rcases ht.recycled p hr with hr | ⟨rfl, -⟩
          · exact hnot hr
          · exact hne rfl
        · have := hok.born p d hd
          omega
      | written hc hborn hparent =>
        rw [hborn]
        exact hold hc (hparent ▸ hp)
  nodup := ht.nodup

end

section
variable {heap : Heap D} {load : Load} {stop : Option Addr}

variable {fuel : Nat} {a o : Addr} {c : Cell D}

theorem path_mem {x : Addr × Cell D} (h : x ∈ path heap stop fuel a) :
    heap.cells x.1 = some x.2 := by
  induction fuel generalizing a with
  | zero => cases h
  | succ fuel ih =>
    unfold path at h
    split at h
    · cases h
    · rename_i c hc
      rcases List.mem_cons.mp h with rfl | h
      · exact hc
      · split at h
        · cases h
        · split at h
          · cases h
          · exact ih h

theorem path_append (heap : Heap D) (stop : Option Addr) (fuel : Nat) (a : Addr) :
    ∃ rest, path heap none fuel a = path heap stop fuel a ++ rest := by
  induction fuel generalizing a with
  | zero => exact ⟨[], rfl⟩
  | succ fuel ih =>
    unfold path
    cases hc : heap.cells a with
    | none => exact ⟨[], rfl⟩
    | some c =>
      simp only [reduceCtorEq, if_false]
      by_cases hstop : stop = some a
      · rw [if_pos hstop]
        exact ⟨_, rfl⟩
      · rw [if_neg hstop]
        cases c.parent with
        | none => exact ⟨[], rfl⟩
        | some p =>
          obtain ⟨rest, hrest⟩ := ih p
          exact ⟨rest, by simp only [hrest, List.cons_append]⟩

theorem path_complete (hok : HeapOk heap) (hc : heap.cells a = some c)
    (hfuel : c.born < fuel) : ∃ x ∈ (path heap none fuel a).getLast?, x.2.parent = none := by
  induction fuel generalizing a c with
  | zero => omega
  | succ fuel ih =>
    simp only [path, hc, reduceCtorEq, if_false]
    cases hparent : c.parent with
    | none => exact ⟨(a, c), by simp, hparent⟩
    | some p =>
      obtain ⟨-, d, hd, hlt⟩ := hok.parent a c p hc hparent
      obtain ⟨x, hx, hx'⟩ := ih hd (by omega)
      refine ⟨x, ?_, hx'⟩
      simp only [Option.mem_def] at hx ⊢
      rw [List.getLast?_cons, hx]
      rfl

def Misses (load : Load) (c : Cell D) : Prop := load.localBool c = none ∧ load.find c = none

def FindsAt (load : Load) (c : Cell D) (slot : Nat) : Prop := load.localBool c = none ∧ load.find c = some slot

theorem walk_append {above rest : List (Addr × Cell D)} {slot : Nat}
    (habove : ∀ x ∈ above, Misses load x.2) (hc : FindsAt load c slot) :
    walk load (above ++ (o, c) :: rest) = some (.entry o c slot) := by
  induction above with
  | nil => simp only [List.nil_append, walk, hc.1, hc.2]
  | cons x above ih =>
    obtain ⟨hbool, hfind⟩ := habove x (by simp)
    simp only [List.cons_append, walk, hbool, hfind]
    exact ih fun y hy => habove y (by simp [hy])

theorem walk_eq_entry {cs : List (Addr × Cell D)} {slot : Nat}
    (h : walk load cs = some (.entry o c slot)) :
    ∃ above rest, cs = above ++ (o, c) :: rest ∧ (∀ x ∈ above, Misses load x.2) ∧ FindsAt load c slot := by
  induction cs with
  | nil => cases h
  | cons x cs ih =>
    obtain ⟨a, d⟩ := x
    simp only [walk] at h
    split at h
    · cases h
    · rename_i hbool hfind
      cases h
      exact ⟨[], cs, rfl, by simp, hbool, hfind⟩
    · rename_i hbool hfind
      obtain ⟨above, rest, rfl, habove, hc⟩ := ih h
      exact ⟨(a, d) :: above, rest, rfl, List.forall_mem_cons.mpr ⟨⟨hbool, hfind⟩, habove⟩, hc⟩

theorem path_stop {above rest : List (Addr × Cell D)}
    (h : path heap none fuel a = above ++ (o, c) :: rest) (hfirst : ∀ x ∈ above, x.1 ≠ o) :
    path heap (some o) fuel a = above ++ [(o, c)] := by
  induction fuel generalizing a above with
  | zero => simp [path] at h
  | succ fuel ih =>
    unfold path at h ⊢
    cases hcell : heap.cells a with
    | none => simp [hcell] at h
    | some d =>
      simp only [hcell, reduceCtorEq, if_false] at h ⊢
      cases above with
      | nil =>
        simp only [List.nil_append, List.cons.injEq, Prod.mk.injEq] at h
        obtain ⟨⟨rfl, rfl⟩, -⟩ := h
        simp
      | cons x above =>
        simp only [List.cons_append, List.cons.injEq] at h
        obtain ⟨rfl, htail⟩ := h
        have hne : some o ≠ some a := fun heq => hfirst (a, d) (by simp) (Option.some.inj heq).symm
        rw [if_neg hne, List.cons_append]
        cases hparent : d.parent with
        | none => simp [hparent] at htail
        | some p =>
          simp only [hparent] at htail
          simp only [ih htail fun x hx => hfirst x (by simp [hx])]

end

/-- A filled cache: wherever the recorded stamps are, the contexts on the way do not know the name and the owner has it in
    the recorded slot. -/
def CacheOk (heap : Heap D) (load : Load) (cache : Cache) : Prop :=
  ∀ o, cache.ownerCtx = some o → ∃ above t, cache.stamps = above ++ [t] ∧ (∀ x ∈ cache.stamps, x < heap.clock) ∧
    (∀ a c, heap.cells a = some c → (load.store c).stamp ∈ above → Misses load c) ∧
    ∀ a c, heap.cells a = some c → (load.store c).stamp = t → a = o ∧ FindsAt load c cache.slot

section
variable {heap heap' : Heap D} {load : Load} {cache : Cache} {t a : Addr} {c : Cell D}

theorem cacheOk_empty (heap : Heap D) (load : Load) : CacheOk heap load {} := by
  rintro o ⟨⟩

theorem CacheOk.touch (hcache : CacheOk heap load cache) (ht : Touches heap heap' t) : CacheOk heap' load cache := by
  intro o ho
  obtain ⟨above, t', hstamps, hlt, habove, howner⟩ := hcache o ho
  have hold : ∀ {a : Addr} {c' : Cell D}, heap'.cells a = some c' → (load.store c').stamp ∈ cache.stamps →
      ∃ c, heap.cells a = some c ∧ Same load c c' := by
    intro a c' hc' hmem
    rcases ht.stamp_cases load hc' with ⟨-, hstamp⟩ | hsame
    · have := hlt _ hmem
      omega
    · exact hsame
  refine ⟨above, t', hstamps, fun x hx => ?_, fun a c' hc' hmem => ?_, fun a c' hc' heq => ?_⟩
  · rw [ht.clock]
    have := hlt x hx
    omega
  · obtain ⟨c, hc, hsame⟩ := hold hc' (by simp [hstamps, hmem])
    obtain ⟨hbool, hfind⟩ := habove a c hc (hsame.stamp ▸ hmem)
    exact ⟨hsame.localBool hbool, hsame.find.trans hfind⟩
  · obtain ⟨c, hc, hsame⟩ := hold hc' (by simp [hstamps, heq])
    obtain ⟨rfl, hbool, hfind⟩ := howner a c hc (hsame.stamp ▸ heq)
    exact ⟨rfl, hsame.localBool hbool, hsame.find.trans hfind⟩

theorem chain_root (hok : HeapOk heap) (hc : heap.cells a = some c) (hparent : c.parent = none) :
    chain heap a = [(a, c)] := by
  have hborn := hok.born a c hc
  obtain ⟨fuel, hfuel⟩ : ∃ fuel, heap.clock = fuel + 1 := ⟨heap.clock - 1, by omega⟩
  simp [chain, hfuel, path, hc, hparent]

variable [Double D]

theorem lookupRoot_spec (hok : HeapOk heap) (hcache : CacheOk heap load cache) (hc : heap.cells a = some c)
    (hbool : load.localBool c = none) (hroot : load.isRoot c = true) (htells : Tells heap load cache a) :
    (lookupRoot load cache a c).1 = (walk load (chain heap a)).map (Hit.value load) ∧
      CacheOk heap load (lookupRoot load cache a c).2 := by
  have hparent : c.parent = none := by
    simp only [Load.isRoot, Bool.and_eq_true, Option.isNone_iff_eq_none] at hroot
    exact hroot.1.2
  rw [chain_root hok hc hparent]
  simp only [lookupRoot]
  split
  · rename_i hhit
    obtain ⟨hrequest, howner, -, hversion⟩ := hhit
    have hstamps := htells c a hc hrequest howner
    rw [if_pos hroot] at hstamps
    replace hstamps := hstamps rfl hversion
    refine ⟨?_, hcache⟩
    obtain ⟨above, t, hsplit, -, -, hlast⟩ := hcache a howner
    rw [hstamps] at hsplit
    obtain ⟨rfl, rfl⟩ : above = [] ∧ t = (load.store c).stamp := by
      cases above with
      | nil => simpa [eq_comm] using hsplit
      | cons x xs => simp at hsplit
    obtain ⟨-, hfinds⟩ := hlast a c hc rfl
    rw [← List.nil_append [(a, c)], walk_append (by simp) hfinds]
    rfl
  · cases hfind : load.find c with
    | none =>
      refine ⟨?_, cacheOk_empty heap load⟩
      simp [walk, hbool, hfind]
    | some slot =>
      refine ⟨by simp [walk, hbool, hfind, Hit.value], ?_⟩
      rintro o ⟨rfl⟩
      refine ⟨[], _, rfl, ?_, by simp, ?_⟩
      · simpa using hok.stamp load a c hc
      · intro a' c' hc' heq
        obtain rfl := hok.unique load a' a c' c hc' hc heq
        rw [hc] at hc'
        cases hc'
        exact ⟨rfl, hbool, hfind⟩

theorem lookupParents_spec (hok : HeapOk heap) :
    (lookupParents heap load a).1 = (walk load (chain heap a)).map (Hit.value load) ∧
      CacheOk heap load (lookupParents heap load a).2 := by
  unfold lookupParents
  cases hwalk : walk load (chain heap a) with
  | none => exact ⟨rfl, cacheOk_empty heap load⟩
  | some hit =>
    cases hit with
    | bool b => exact ⟨rfl, cacheOk_empty heap load⟩
    | entry o c slot =>
      refine ⟨rfl, ?_⟩
      obtain ⟨above, rest, hchain, habove, hfinds⟩ := walk_eq_entry hwalk
      have hmem : ∀ x ∈ above ++ [(o, c)], heap.cells x.1 = some x.2 := by
        intro x hx
        have hx' : x ∈ chain heap a := by
          rw [hchain, ← List.singleton_append, ← List.append_assoc]
          exact List.mem_append_left rest hx
        exact path_mem hx'
      have hfirst : ∀ x ∈ above, x.1 ≠ o := by
        intro x hx heq
        have hx' := hmem x (by simp [hx])
        rw [heq, hmem (o, c) (by simp)] at hx'
        have hmiss := (habove x hx).2
        rw [← Option.some.inj hx', hfinds.2] at hmiss
        cases hmiss
      have hpath : path heap (some o) heap.clock a = above ++ [(o, c)] := path_stop hchain hfirst
      rintro o' ⟨rfl⟩
      refine ⟨above.map fun x => (load.store x.2).stamp, (load.store c).stamp, ?_, ?_, ?_, ?_⟩
      · simp [shadowStamps, hpath]
      · simp only [shadowStamps, hpath, List.mem_map]
        rintro _ ⟨x, hx, rfl⟩
        exact hok.stamp load x.1 x.2 (hmem x hx)
      · intro a' c' hc' hstamp
        obtain ⟨x, hx, heq⟩ := List.mem_map.mp hstamp
        have hx' := hmem x (by simp [hx])
        rw [hok.unique load x.1 a' x.2 c' hx' hc' heq, hc'] at hx'
        rw [Option.some.inj hx']
        exact habove x hx
      · intro a' c' hc' hstamp
        have ho := hmem (o, c) (by simp)
        obtain rfl := hok.unique load a' o c' c hc' ho hstamp
        rw [hc'] at ho
        rw [Option.some.inj ho]
        exact ⟨rfl, hfinds⟩

omit [Double D] in
theorem walk_of_stamps {o : Addr} {owner : Cell D} (hcache : CacheOk heap load cache) (howner : cache.ownerCtx = some o)
    (ho : heap.cells o = some owner) (hstamps : cache.stamps = shadowStamps heap load a o) :
    walk load (chain heap a) = some (.entry o owner cache.slot) := by
  obtain ⟨above, t, hsplit, -, habove, hlast⟩ := hcache o howner
  rw [hsplit, shadowStamps, eq_comm, List.map_eq_append_iff] at hstamps
  obtain ⟨cs, last, hpath, hcs, hlast'⟩ := hstamps
  obtain ⟨x, rfl, hx⟩ := List.map_eq_singleton_iff.mp hlast'
  have hmem : ∀ y ∈ cs ++ [x], heap.cells y.1 = some y.2 := fun y hy => path_mem (hpath ▸ hy)
  have hcell := hmem x (by simp)
  obtain ⟨rfl, hfinds⟩ := hlast x.1 x.2 hcell hx
  rw [ho] at hcell
  cases hcell
  obtain ⟨rest, hrest⟩ := path_append heap (some x.1) heap.clock a
  rw [chain, hrest, hpath, List.append_assoc]
  refine walk_append (fun y hy => ?_) hfinds
  refine habove y.1 y.2 (hmem y (by simp [hy])) ?_
  rw [← hcs]
  exact List.mem_map.mpr ⟨y, hy, rfl⟩

theorem lookupChained_spec (hok : HeapOk heap) (hcache : CacheOk heap load cache) (hc : heap.cells a = some c)
    (hroot : load.isRoot c = false) (htells : Tells heap load cache a) :
    ∃ cache', lookupChained heap load cache a c = some ((walk load (chain heap a)).map (Hit.value load), cache') ∧
      CacheOk heap load cache' := by
  have hhit : ∀ {o : Addr}, cache.requestCtx = some a → cache.ownerCtx = some o → heap.cells o ≠ none ∧
      (cache.shadowVersion = lookupShadowVersion heap load a o → cache.stamps = shadowStamps heap load a o) := by
    intro o hrequest howner
    have htold := htells c o hc hrequest howner
    rwa [hroot, if_neg (by simp)] at htold
  have hsearch : ∃ cache', some (lookupParents heap load a) =
      some ((walk load (chain heap a)).map (Hit.value load), cache') ∧ CacheOk heap load cache' := by
    have hspec : (lookupParents heap load a).1 = (walk load (chain heap a)).map (Hit.value load) ∧
        CacheOk heap load (lookupParents heap load a).2 := lookupParents_spec hok
    exact ⟨_, congrArg some (Prod.ext hspec.1 rfl), hspec.2⟩
  unfold lookupChained
  split
  · rename_i h
    obtain ⟨hrequest, howner, -, hversion⟩ := h
    refine ⟨cache, ?_, hcache⟩
    rw [walk_of_stamps hcache howner hc ((hhit hrequest howner).2 hversion)]
    rfl
  · split
    · rename_i hrequest
      cases howner : cache.ownerCtx with
      | none => exact hsearch
      | some o =>
        cases cache.entriesBase with
        | none => exact hsearch
        | some base =>
          obtain ⟨hsome, hstamps⟩ := hhit hrequest howner
          obtain ⟨owner, ho⟩ := Option.ne_none_iff_exists'.mp hsome
          simp only [ho]
          split
          · rename_i h
            refine ⟨cache, ?_, hcache⟩
            rw [walk_of_stamps hcache howner ho (hstamps h.2)]
            rfl
          · exact hsearch
    · exact hsearch

theorem lookupCachedScalar_spec (hok : HeapOk heap) (hcache : CacheOk heap load cache) (hc : heap.cells a = some c)
    (htells : Tells heap load cache a) :
    ∃ cache', lookupCachedScalar heap load cache a = some (lookupScalar heap load a, cache') ∧
      CacheOk heap load cache' := by
  simp only [lookupCachedScalar, lookupScalar, hc]
  cases load.scoped c with
  | some r => exact ⟨cache, rfl, hcache⟩
  | none =>
    cases hbool : load.localBool c with
    | some b =>
      refine ⟨{}, ?_, cacheOk_empty heap load⟩
      obtain ⟨fuel, hfuel⟩ : ∃ fuel, heap.clock = fuel + 1 := ⟨heap.clock - 1, by have := hok.born a c hc; omega⟩
      simp [chain, hfuel, path, hc, walk, hbool, Hit.value]
    | none =>
      cases hroot : load.isRoot c with
      | true =>
        obtain ⟨hvalue, hcache'⟩ := lookupRoot_spec hok hcache hc hbool hroot htells
        exact ⟨_, by rw [if_pos rfl]; exact congrArg some (Prod.ext hvalue rfl), hcache'⟩
      | false =>
        obtain ⟨cache', hvalue, hcache'⟩ := lookupChained_spec hok hcache hc hroot htells
        exact ⟨cache', by rw [if_neg (by simp)]; exact hvalue, hcache'⟩

end

section
variable [Double D] {program : Nat → Load} {s : State D}

structure StateOk (program : Nat → Load) (s : State D) : Prop where
  heap : HeapOk s.heap
  caches : ∀ ip, CacheOk s.heap (program ip) (s.caches ip)

theorem stateOk_of_reached (h : Reached program (Telling program) s) : StateOk program s := by
  induction h with
  | start => exact ⟨⟨by simp, by simp, by simp, by simp, by simp⟩, fun ip => cacheOk_empty _ _⟩
  | @step s e h hlegal htells ih =>
    cases e with
    | call call =>
      obtain ⟨t, ht⟩ := after_touches ih.heap hlegal
      exact ⟨ih.heap.touch ht, fun ip => (ih.caches ip).touch ht⟩
    | lookup ip a =>
      obtain ⟨c, hc⟩ := Option.isSome_iff_exists.mp hlegal.1
      obtain ⟨cache', hlookup, hcache'⟩ := lookupCachedScalar_spec ih.heap (ih.caches ip) hc htells
      simp only [State.after, hlookup]
      refine ⟨ih.heap, fun ip' => ?_⟩
      show CacheOk s.heap (program ip') (Function.update s.caches ip cache' ip')
      by_cases hip : ip' = ip
      · subst hip
        rw [Function.update_self]
        exact hcache'
      · rw [Function.update_of_ne hip]
        exact ih.caches ip'

theorem after_lookup_heap (program : Nat → Load) (s : State D) (ip : Nat) (a : Addr) :
    (s.after program (.lookup ip a)).heap = s.heap := by
  simp only [State.after]
  split <;> rfl

/-- Coherence: in every run in which all lookups are made where the cache tells, a cached lookup returns what the lookup
    along the parent chain returns, and that chain is complete. -/
theorem lookupCachedScalar_coherent {ip : Nat} {a : Addr} (h : Reached program (Telling program) s)
    (ha : s.heap.InUse a) (htells : Tells s.heap (program ip) (s.caches ip) a) :
    (lookupCachedScalar s.heap (program ip) (s.caches ip) a).map Prod.fst = some (lookupScalar s.heap (program ip) a) ∧
      ∃ x ∈ (chain s.heap a).getLast?, x.2.parent = none := by
  have hok := stateOk_of_reached h
  obtain ⟨c, hc⟩ := Option.isSome_iff_exists.mp ha.1
  obtain ⟨cache', hlookup, -⟩ := lookupCachedScalar_spec hok.heap (hok.caches ip) hc htells
  exact ⟨by rw [hlookup]; rfl, path_complete hok.heap hc (hok.heap.born a c hc)⟩

end
/-- A context with `x = 1` after one lookup. -/
def cachedState : State Int :=
  [.call (.new 10 100 101), .call (.write 10 0 (.value "x" (.number 1))), .lookup 0 10].foldl
    (State.after fun _ => ⟨"x", false⟩) {}

theorem lookup_cached_root :
    (lookupCachedScalar cachedState.heap ⟨"x", false⟩ (cachedState.caches 0) 10).map Prod.fst =
      some (lookupScalar cachedState.heap ⟨"x", false⟩ 10) := by
  have h0 : Reached (D := Int) (fun _ => ⟨"x", false⟩) (Telling fun _ => ⟨"x", false⟩) {} := .start
  have h1 := h0.step (e := .call (.new 10 100 101)) rfl trivial
  have h2 := h1.step (e := .call (.write 10 0 (.value "x" (.number 1)))) ⟨by decide +kernel, by decide +kernel⟩ trivial
  have h3 := h2.step (e := .lookup 0 10) ⟨by decide +kernel, by decide +kernel⟩ (by rintro c o - ⟨⟩)
  have htells : Tells cachedState.heap ⟨"x", false⟩ (cachedState.caches 0) 10 := by
    have hroot : ((cachedState.heap.cells 10).all (Load.isRoot ⟨"x", false⟩)) = true := by decide +kernel
    have hstamp : (cachedState.heap.cells 10).map (fun c => [(Load.store ⟨"x", false⟩ c).stamp]) =
        some (cachedState.caches 0).stamps := by decide +kernel
    intro c o hc hrequest howner
    rw [hc] at hroot hstamp
    rw [if_pos (by simpa using hroot)]
    intro _ _
    exact (Option.some.inj hstamp).symm
  have ha : cachedState.heap.InUse 10 := ⟨by decide +kernel, by decide +kernel⟩
  exact (@lookupCachedScalar_coherent Int _ (fun _ => ⟨"x", false⟩) cachedState 0 10 h3 ha htells).1

/-- The calls on two contexts with `x`, an overlay of the first, a lookup through it, and an overlay of the second in the
    memory of the freed one. -/
def recycledOverlay : List (Event Int) :=
  [.call (.new 10 100 101), .call (.write 10 0 (.value "x" (.number 1))), .call (.new 20 200 201),
    .call (.write 20 0 (.value "x" (.number 2))), .call (.overlayNew 10 30 300 301), .lookup 0 30, .call (.free 30),
    .call (.overlayNew 20 40 400 401)]

def recycledState : State Int := recycledOverlay.foldl (State.after fun _ => ⟨"x", false⟩) {}

theorem lookup_recycled_overlay :
    Reached (fun _ => ⟨"x", false⟩) (fun _ _ => True) recycledState ∧ recycledState.heap.InUse 30 ∧
      (lookupCachedScalar recycledState.heap ⟨"x", false⟩ (recycledState.caches 0) 30).map Prod.fst = some (some 1) ∧
      lookupScalar recycledState.heap ⟨"x", false⟩ 30 = some 2 := by
  refine ⟨?_, ⟨by decide +kernel, by decide +kernel⟩, by decide +kernel, by decide +kernel⟩
  have h0 : Reached (D := Int) (fun _ => ⟨"x", false⟩) (fun _ _ => True) {} := .start
  have h1 := h0.step (e := .call (.new 10 100 101)) rfl trivial
  have h2 := h1.step (e := .call (.write 10 0 (.value "x" (.number 1)))) ⟨by decide +kernel, by decide +kernel⟩ trivial
  have h3 := h2.step (e := .call (.new 20 200 201)) rfl trivial
  have h4 := h3.step (e := .call (.write 20 0 (.value "x" (.number 2)))) ⟨by decide +kernel, by decide +kernel⟩ trivial
  have h5 := h4.step (e := .call (.overlayNew 10 30 300 301)) ⟨⟨by decide +kernel, by decide +kernel⟩, rfl⟩ trivial
  have h6 := h5.step (e := .lookup 0 30) ⟨by decide +kernel, by decide +kernel⟩ trivial
  have h7 := h6.step (e := .call (.free 30)) ⟨⟨by decide +kernel, by decide +kernel⟩, ?_⟩ trivial
  have h8 := h7.step (e := .call (.overlayNew 20 40 400 401)) ⟨⟨by decide +kernel, by decide +kernel⟩, rfl⟩ trivial
  · exact h8
  · rw [after_lookup_heap]
    intro b c hc
    by_cases h30 : b = 30
    · subst h30
      cases hc
      simp [Cell.new]
    by_cases h20 : b = 20
    · subst h20
      cases hc
      simp [Cell.write, Cell.setValue, Cell.new]
    by_cases h10 : b = 10
    · subst h10
      cases hc
      simp [Cell.write, Cell.setValue, Cell.new]
    simp [State.after, Heap.after, Heap.put, h30, h20, h10] at hc

end Cxpr.Ir.LookupCache
