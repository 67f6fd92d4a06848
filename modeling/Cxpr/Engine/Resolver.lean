import Mathlib.Data.List.Induction
import Mathlib.Data.List.Infix
import Mathlib.Data.List.Nodup

/-! The lookback resolver of registries that several engine programs share (`src/engine/lookback.c`,
    `src/engine/program.c`): the first program installs the resolver of the engine and keeps the one of the host, the
    last one to be freed puts that back. -/

namespace Cxpr.Engine
variable {R F U : Type} [DecidableEq R] [DecidableEq F] [DecidableEq U]

/-- A `cxpr_lookback_resolver_ptr` that is not NULL: a function of the host, or `engine_lookback_resolver`. -/
inductive ResolverFn (F : Type) where
  | host (fn : F)
  | engine
deriving DecidableEq

/-- The lookback fields of a `cxpr_registry`. Of the function that frees the userdata only its presence is kept. -/
structure LookbackFields (F U : Type) where
  resolver : Option (ResolverFn F)
  userdata : Option U
  freesUserdata : Bool

def setLookbackResolver (reg : LookbackFields F U) (resolver : Option (ResolverFn F)) (userdata : Option U)
    (freesUserdata : Bool) : LookbackFields F U :=
  if reg.userdata = userdata then
    { reg with resolver := resolver, freesUserdata := freesUserdata || reg.freesUserdata }
  else ⟨resolver, userdata, freesUserdata⟩

/-- `cxpr_registry_lookback_resolver`. -/
def LookbackFields.installed (reg : LookbackFields F U) : Option (ResolverFn F) × Option U :=
  (reg.resolver, reg.userdata)

structure Ref (R F U : Type) where
  registry : R
  priorFn : Option (ResolverFn F)
  priorUd : Option U
  refCount : Nat

/-- A `cxpr_engine_program`, as far as resolvers go; without a registry of the host it owns one. -/
structure Program (R F U : Type) where
  registry : Option R
  delegateFn : Option (ResolverFn F) := none
  delegateUd : Option U := none

/-- The registries of the host, `g_engine_registry_refs`, and the programs that are alive. -/
structure World (R F U : Type) where
  registries : R → LookbackFields F U
  refs : List (Ref R F U) := []
  programs : List (Program R F U) := []

def findRef (r : R) (refs : List (Ref R F U)) : Option (Ref R F U) := refs.find? fun it => it.registry = r

def updateRef (r : R) (change : Ref R F U → Option (Ref R F U)) : List (Ref R F U) → List (Ref R F U)
  | [] => []
  | it :: rest => if it.registry = r then (change it).toList ++ rest else it :: updateRef r change rest

def World.setRegistry (w : World R F U) (r : R) (reg : LookbackFields F U) : World R F U :=
  { w with registries := fun r' => if r' = r then reg else w.registries r' }

/-- `engine_registry_resolver_acquire`; `allocated` is the answer of the allocator. -/
def acquire (allocated : Bool) (w : World R F U) (prog : Program R F U) : Option (World R F U × Program R F U) :=
  match prog.registry with
  | none => some (w, prog)
  | some r =>
    match findRef r w.refs with
    | some it =>
      some ({ w with refs := updateRef r (fun it => some { it with refCount := it.refCount + 1 }) w.refs },
        { prog with delegateFn := it.priorFn, delegateUd := it.priorUd })
    | none =>
      if !allocated then none
      else
        let reg := w.registries r
        let own := reg.resolver = some .engine
        let it : Ref R F U := ⟨r, if own then none else reg.resolver, if own then none else reg.userdata, 1⟩
        some ({ w.setRegistry r (setLookbackResolver reg (some .engine) none false) with refs := it :: w.refs },
          { prog with delegateFn := it.priorFn, delegateUd := it.priorUd })

def release (w : World R F U) (prog : Program R F U) : World R F U :=
  match prog.registry with
  | none => w
  | some r =>
    match findRef r w.refs with
    | none => w
    | some it =>
      if 1 < it.refCount then
        { w with refs := updateRef r (fun it => some { it with refCount := it.refCount - 1 }) w.refs }
      else
        let reg := w.registries r
        let w := if reg.resolver = some .engine then
          w.setRegistry r (setLookbackResolver reg it.priorFn it.priorUd false) else w
        { w with refs := updateRef r (fun _ => none) w.refs }

/-- How far `cxpr_engine_program_new` comes: not to its registry; not to the resolver, for want of memory or for a watch
    that is not found, does not parse or is not a bool; or to the resolver, with the answer of the allocator and
    whether the expressions compile. -/
inductive Construction where
  | failsAtOnce
  | failsBeforeAcquire
  | acquires (allocated compiles : Bool)

/-- `cxpr_engine_program_new`. Every failure behind the registry runs `engine_program_free_internals`. -/
def programNew (w : World R F U) (registry : Option R) : Construction → World R F U × Option (Program R F U)
  | .failsAtOnce => (w, none)
  | .failsBeforeAcquire => (release w { registry := registry }, none)
  | .acquires allocated compiles =>
    match acquire allocated w { registry := registry } with
    | none => (release w { registry := registry }, none)
    | some (w, prog) => if compiles then (w, some prog) else (release w prog, none)

inductive Op (R : Type) where
  | programNew (registry : Option R) (construction : Construction)
  | programFree (index : Nat)

def Op.apply (w : World R F U) : Op R → World R F U
  | .programNew registry construction =>
    let (w, prog) := Engine.programNew w registry construction
    { w with programs := w.programs ++ prog.toList }
  | .programFree index =>
    match w.programs[index]? with
    | none => w
    | some prog => { release w prog with programs := w.programs.eraseIdx index }

def run (w : World R F U) (ops : List (Op R)) : World R F U := ops.foldl Op.apply w

/-- The world before the first call: every registry has the resolver of the host, if any. -/
def start (host : R → Option F × Option U) (frees : R → Bool) : World R F U :=
  { registries := fun r => ⟨(host r).1.map .host, (host r).2, frees r⟩ }

def alive (w : World R F U) (r : R) : Nat := w.programs.countP fun p => p.registry = some r

/-- What the claims of the programs come to: the resolver of the engine while a program is alive, the one of the host
    otherwise. -/
def Counted (host : R → Option F × Option U) (w : World R F U) : Prop :=
  ∀ r, (w.registries r).installed =
    if 0 < alive w r then (some .engine, none) else ((host r).1.map .host, (host r).2)

/-- A call that fails before it acquires the resolver is made only on a registry without a program. -/
def Op.Balanced (w : World R F U) : Op R → Prop
  | .programNew (some r) .failsBeforeAcquire => alive w r = 0
  | _ => True

section
variable {r r' : R} {refs : List (Ref R F U)} {change : Ref R F U → Option (Ref R F U)} {it : Ref R F U}

omit [DecidableEq F] [DecidableEq U] in
theorem findRef_updateRef_of_ne (h : r' ≠ r) (hchange : ∀ it it', change it = some it' → it'.registry = it.registry) :
    findRef r' (updateRef r change refs) = findRef r' refs := by
  induction refs with
  | nil => rfl
  | cons it rest ih =>
    unfold findRef at ih ⊢
    rw [updateRef]
    split
    · rename_i hit
      have hskip : ¬ it.registry = r' := fun heq => h (heq.symm.trans hit)
      cases hnew : change it with
      | none => simp [hskip]
      | some it' =>
        have hskip' : ¬ it'.registry = r' := by rwa [hchange it it' hnew]
        simp [hskip, hskip']
    · rw [List.find?_cons, List.find?_cons, ih]

omit [DecidableEq F] [DecidableEq U] in
theorem findRef_updateRef (hnodup : (refs.map (·.registry)).Nodup) (hfind : findRef r refs = some it)
    (hchange : ∀ it', change it = some it' → it'.registry = r) : findRef r (updateRef r change refs) = change it := by
  induction refs with
  | nil => cases hfind
  | cons it₀ rest ih =>
    rw [List.map_cons, List.nodup_cons] at hnodup
    unfold findRef at ih hfind ⊢
    rw [updateRef]
    split
    · rename_i hit
      have hsame : it₀ = it := by simpa [hit] using hfind
      subst hsame
      have hrest : rest.find? (fun it => decide (it.registry = r)) = none := by
        rw [List.find?_eq_none]
        intro x hx hxr
        exact hnodup.1 (List.mem_map.mpr ⟨x, hx, (of_decide_eq_true hxr).trans hit.symm⟩)
      cases hnew : change it₀ with
      | none => simpa using hrest
      | some it' => simp [hchange it' hnew]
    · rename_i hit
      rw [List.find?_cons_of_neg (by simpa using hit)] at hfind ⊢
      exact ih hnodup.2 hfind

omit [DecidableEq F] [DecidableEq U] in
theorem updateRef_sublist (hchange : ∀ it it', change it = some it' → it'.registry = it.registry) :
    ((updateRef r change refs).map (·.registry)).Sublist (refs.map (·.registry)) := by
  induction refs with
  | nil => exact .slnil
  | cons it rest ih =>
    rw [updateRef]
    split
    · cases hnew : change it with
      | none => exact List.sublist_cons_self _ _
      | some it' => simp [hchange it it' hnew]
    · simpa using ih

end

/-! ### The invariant -/

section
variable {host : R → Option F × Option U} {count : R → Nat} {w w' : World R F U} {prog prog' : Program R F U} {r : R}

/-- The references count `count` programs, and the resolvers are the right ones for them. -/
structure Counts (host : R → Option F × Option U) (count : R → Nat) (w : World R F U) : Prop where
  nodup : (w.refs.map (·.registry)).Nodup
  refs : ∀ r, findRef r w.refs = if 0 < count r then some ⟨r, (host r).1.map .host, (host r).2, count r⟩ else none
  installed : ∀ r, (w.registries r).installed =
    if 0 < count r then (some .engine, none) else ((host r).1.map .host, (host r).2)

def more (r : R) (count : R → Nat) : R → Nat := fun r' => if r' = r then count r' + 1 else count r'

def less (r : R) (count : R → Nat) : R → Nat := fun r' => if r' = r then count r' - 1 else count r'

omit [DecidableEq F] [DecidableEq U] in
theorem less_more (r : R) (count : R → Nat) : less r (more r count) = count := by
  funext r'
  unfold less more
  split <;> simp

omit [DecidableEq F] in
theorem installed_setLookbackResolver (reg : LookbackFields F U) (resolver : Option (ResolverFn F)) (userdata : Option U)
    (frees : Bool) : (setLookbackResolver reg resolver userdata frees).installed = (resolver, userdata) := by
  unfold setLookbackResolver
  split
  · rename_i heq
    exact congrArg (Prod.mk resolver) heq
  · rfl

theorem Counts.acquire {allocated : Bool} (h : Counts host count w) (hr : prog.registry = some r)
    (heq : acquire allocated w prog = some (w', prog')) :
    Counts host (more r count) w' ∧ prog'.registry = some r ∧ w'.programs = w.programs := by
  unfold Engine.acquire at heq
  rw [hr] at heq
  simp only [h.refs r] at heq
  by_cases hpos : 0 < count r
  · simp only [if_pos hpos, Option.some.injEq, Prod.mk.injEq] at heq
    obtain ⟨rfl, rfl⟩ := heq
    have hfind := h.refs r
    rw [if_pos hpos] at hfind
    refine ⟨⟨?_, ?_, ?_⟩, rfl, rfl⟩
    · exact h.nodup.sublist (updateRef_sublist fun it it' hit => by cases hit; rfl)
    · intro r'
      by_cases hr' : r' = r
      · subst hr'
        rw [findRef_updateRef h.nodup hfind (fun it' hit => by cases hit; rfl)]
        simp [more]
      · rw [findRef_updateRef_of_ne hr' (fun it it' hit => by cases hit; rfl), h.refs r']
        simp [more, hr']
    · intro r'
      rw [h.installed r']
      by_cases hr' : r' = r
      · subst hr'
        simp [more, hpos]
      · simp [more, hr']
  · simp only [if_neg hpos] at heq
    cases allocated with
    | false => cases heq
    | true =>
      have hhost := h.installed r
      rw [if_neg hpos] at hhost
      obtain ⟨hfn, hud⟩ := Prod.mk.inj hhost
      have hnot : ¬ (host r).1.map ResolverFn.host = some .engine := by cases (host r).1 <;> simp
      simp only [Bool.not_true, Bool.false_eq_true, if_false, hfn, hud, hnot, Option.some.injEq, Prod.mk.injEq] at heq
      obtain ⟨rfl, rfl⟩ := heq
      have hzero : count r = 0 := by omega
      refine ⟨⟨?_, ?_, ?_⟩, rfl, rfl⟩
      · refine List.nodup_cons.mpr ⟨?_, h.nodup⟩
        intro hmem
        obtain ⟨x, hx, hxr⟩ := List.mem_map.mp hmem
        have hnone := h.refs r
        rw [if_neg hpos, findRef, List.find?_eq_none] at hnone
        exact hnone x hx (decide_eq_true hxr)
      · intro r'
        by_cases hr' : r' = r
        · subst hr'
          simp [findRef, more, hzero]
        · have hskip : ¬ r = r' := fun heq => hr' heq.symm
          have hold : findRef r' w.refs = _ := h.refs r'
          simp only [more, hr', if_false, ← hold, findRef]
          rw [List.find?_cons_of_neg (by simpa using hskip)]
      · intro r'
        by_cases hr' : r' = r
        · subst hr'
          simp [World.setRegistry, installed_setLookbackResolver, more]
        · simp only [World.setRegistry, hr', if_false, more, h.installed r']

theorem Counts.release (h : Counts host count w) (hr : prog.registry = some r) (hpos : 0 < count r) :
    Counts host (less r count) (release w prog) ∧ (Engine.release w prog).programs = w.programs := by
  have hfind := h.refs r
  rw [if_pos hpos] at hfind
  unfold Engine.release
  rw [hr]
  simp only [hfind]
  by_cases hmore : 1 < count r
  · rw [if_pos hmore]
    refine ⟨⟨?_, ?_, ?_⟩, rfl⟩
    · exact h.nodup.sublist (updateRef_sublist fun it it' hit => by cases hit; rfl)
    · intro r'
      by_cases hr' : r' = r
      · subst hr'
        have hleft : 0 < count r' - 1 := by omega
        rw [findRef_updateRef h.nodup hfind (fun it' hit => by cases hit; rfl)]
        simp [less, hleft]
      · rw [findRef_updateRef_of_ne hr' (fun it it' hit => by cases hit; rfl), h.refs r']
        simp [less, hr']
    · intro r'
      rw [h.installed r']
      by_cases hr' : r' = r
      · subst hr'
        have hleft : 0 < count r' - 1 := by omega
        simp [less, hpos, hleft]
      · simp [less, hr']
  · have hone : count r = 1 := by omega
    have hengine := h.installed r
    rw [if_pos hpos] at hengine
    have hresolver : (w.registries r).resolver = some .engine := (Prod.mk.inj hengine).1
    simp only [if_neg hmore, hresolver, if_true]
    refine ⟨⟨?_, ?_, ?_⟩, rfl⟩
    · exact h.nodup.sublist (updateRef_sublist fun it it' hit => by cases hit)
    · intro r'
      by_cases hr' : r' = r
      · subst hr'
        refine (findRef_updateRef h.nodup hfind (fun it' hit => by cases hit)).trans ?_
        simp [less, hone]
      · refine (findRef_updateRef_of_ne hr' (fun it it' hit => by cases hit)).trans ((h.refs r').trans ?_)
        simp [less, hr']
    · intro r'
      by_cases hr' : r' = r
      · subst hr'
        simp [World.setRegistry, installed_setLookbackResolver, less, hone]
      · simp only [World.setRegistry, hr', if_false, less, h.installed r']

theorem Counts.release_eq (h : Counts host count w) (hr : ∀ r, prog.registry = some r → count r = 0) :
    Engine.release w prog = w := by
  unfold Engine.release
  cases hreg : prog.registry with
  | none => rfl
  | some r =>
    have hfind := h.refs r
    rw [if_neg (by rw [hr r hreg]; omega)] at hfind
    simp only [hfind]

omit [DecidableEq F] [DecidableEq U] in
theorem Counts.congr {ps : List (Program R F U)} {count' : R → Nat} (h : Counts host count w)
    (hcount : ∀ r, count' r = count r) : Counts host count' { w with programs := ps } := by
  obtain rfl : count' = count := funext hcount
  exact ⟨h.nodup, h.refs, h.installed⟩

omit [DecidableEq F] [DecidableEq U] in
theorem alive_append (hr : prog.registry = some r) (r' : R) :
    (w.programs ++ [prog]).countP (fun p => p.registry = some r') = more r (alive w) r' := by
  rw [List.countP_append, more, alive]
  by_cases hr' : r' = r
  · simp [hr, hr']
  · simp [hr, hr', Ne.symm hr']

omit [DecidableEq F] [DecidableEq U] in
theorem alive_eraseIdx {i : Nat} (hi : w.programs[i]? = some prog) (r' : R) :
    (w.programs.eraseIdx i).countP (fun p => p.registry = some r') + (if prog.registry = some r' then 1 else 0) =
      alive w r' := by
  obtain ⟨hlt, hget⟩ := List.getElem?_eq_some_iff.mp hi
  have hsplit : w.programs = w.programs.take i ++ prog :: w.programs.drop (i + 1) := by
    rw [← hget, List.getElem_cons_drop, List.take_append_drop]
  rw [alive, List.eraseIdx_eq_take_drop_succ]
  conv_rhs => rw [hsplit]
  simp only [List.countP_append, List.countP_cons, decide_eq_true_eq]
  omega

def moreOn (registry : Option R) (count : R → Nat) : R → Nat :=
  match registry with
  | none => count
  | some r => more r count

theorem programNew_counts (h : Counts host (alive w) w) {registry : Option R} {c : Construction}
    (hbalanced : (Op.programNew registry c).Balanced w) :
    (∃ w', programNew w registry c = (w', none) ∧ w'.programs = w.programs ∧ Counts host (alive w) w') ∨
      ∃ w' prog, programNew w registry c = (w', some prog) ∧ w'.programs = w.programs ∧ prog.registry = registry ∧
        Counts host (moreOn registry (alive w)) w' := by
  -- without a program on the registry the teardown finds nothing to release
  have hunused : (∀ r, registry = some r → alive w r = 0) → release w { registry := registry } = w :=
    fun hzero => h.release_eq hzero
  cases c with
  | failsAtOnce => exact .inl ⟨w, rfl, rfl, h⟩
  | failsBeforeAcquire =>
    refine .inl ⟨w, ?_, rfl, h⟩
    rw [programNew, hunused]
    rintro r rfl
    exact hbalanced
  | acquires allocated compiles =>
    rw [programNew]
    cases hacquire : acquire allocated w { registry := registry } with
    | none =>
      refine .inl ⟨w, ?_, rfl, h⟩
      rw [hunused]
      rintro r rfl
      by_contra hpos
      have hfind := h.refs r
      rw [if_pos (by omega)] at hfind
      simp [acquire, hfind] at hacquire
    | some result =>
      obtain ⟨w', prog⟩ := result
      cases registry with
      | none =>
        cases hacquire
        cases compiles with
        | true => exact .inr ⟨w, { registry := none }, rfl, rfl, rfl, h⟩
        | false => exact .inl ⟨w, rfl, rfl, h⟩
      | some r =>
        obtain ⟨hcounts, hreg, hprograms⟩ := h.acquire rfl hacquire
        cases compiles with
        | true => exact .inr ⟨w', prog, rfl, hprograms, hreg, hcounts⟩
        | false =>
          obtain ⟨hcounts', hprograms'⟩ := hcounts.release hreg (by simp [more])
          rw [less_more] at hcounts'
          exact .inl ⟨release w' prog, rfl, hprograms'.trans hprograms, hcounts'⟩

end

section
variable {host : R → Option F × Option U} {w : World R F U}

theorem Op.apply_counts (h : Counts host (alive w) w) (op : Op R) (hbalanced : op.Balanced w) :
    Counts host (alive (op.apply w)) (op.apply w) := by
  cases op with
  | programNew registry c =>
    simp only [apply]
    rcases programNew_counts h hbalanced with ⟨w', hnew, hprograms, hcounts⟩ | ⟨w', prog, hnew, hprograms, hreg, hcounts⟩
    · rw [hnew]
      refine hcounts.congr ?_
      intro r
      rw [alive, hprograms, Option.toList_none, List.append_nil]
      rfl
    · rw [hnew]
      refine hcounts.congr ?_
      intro r'
      rw [alive, hprograms]
      cases registry with
      | none => simp [hreg, moreOn, alive]
      | some r => exact alive_append hreg r'
  | programFree index =>
    simp only [apply]
    cases hprog : w.programs[index]? with
    | none => exact h
    | some prog =>
      have hleft := alive_eraseIdx hprog
      cases hreg : prog.registry with
      | none =>
        have hrelease : release w prog = w := h.release_eq (by simp [hreg])
        simp only [hrelease]
        refine h.congr ?_
        intro r
        have := hleft r
        rw [hreg] at this
        simpa [alive] using this
      | some r =>
        have hone := hleft r
        rw [hreg, if_pos rfl] at hone
        obtain ⟨hcounts, -⟩ := h.release hreg (by omega)
        refine hcounts.congr ?_
        intro r'
        have hr' := hleft r'
        rw [less]
        by_cases heq : r' = r
        · subst heq
          rw [hreg, if_pos rfl] at hr'
          rw [if_pos rfl, ← hr']
          simp [alive]
        · have hne : ¬ some r = some r' := fun h => heq (Option.some.inj h).symm
          rw [hreg, if_neg hne] at hr'
          rw [if_neg heq, ← hr']
          rfl

def AllBalanced (w : World R F U) (ops : List (Op R)) : Prop :=
  ∀ ops' op, ops' ++ [op] <+: ops → op.Balanced (run w ops')

omit [DecidableEq F] [DecidableEq U] in
theorem counts_start (host : R → Option F × Option U) (frees : R → Bool) :
    Counts host (alive (start host frees)) (start host frees) :=
  ⟨.nil, fun _ => rfl, fun _ => rfl⟩

theorem run_counts {frees : R → Bool} {ops : List (Op R)} (hbalanced : AllBalanced (start host frees) ops) :
    Counts host (alive (run (start host frees) ops)) (run (start host frees) ops) := by
  induction ops using List.reverseRecOn with
  | nil => exact counts_start host frees
  | append_singleton ops op ih =>
    have hbefore := ih fun ops' op' h => hbalanced ops' op' (h.trans (List.prefix_append ops [op]))
    have hnow := hbalanced ops op (List.prefix_refl _)
    rw [run, List.foldl_append]
    exact op.apply_counts hbefore hnow

/-- In every run whose constructions fail before the resolver only on registries without a program, a registry has the
    resolver of the engine exactly while a program is alive on it, and else the one of the host, and a failed
    construction leaves the resolvers of the living programs as they are. -/
theorem resolver_counted (host : R → Option F × Option U) (frees : R → Bool) (ops : List (Op R))
    (hbalanced : AllBalanced (start host frees) ops) :
    Counted host (run (start host frees) ops) ∧
      ∀ ops' registry c, ops' ++ [.programNew registry c] <+: ops →
        (programNew (run (start host frees) ops') registry c).2 = none →
        ∀ r, 0 < alive (run (start host frees) ops') r →
          ((run (start host frees) (ops' ++ [.programNew registry c])).registries r).installed =
            ((run (start host frees) ops').registries r).installed := by
  refine ⟨(run_counts hbalanced).installed, ?_⟩
  intro ops' registry c hprefix hfail r hpos
  have hbalanced' : AllBalanced (start host frees) ops' :=
    fun ops'' op h => hbalanced ops'' op (h.trans ((List.prefix_append _ _).trans hprefix))
  have hcounts := run_counts hbalanced'
  rcases programNew_counts hcounts (hbalanced _ _ hprefix) with ⟨w', hnew, -, hcounts'⟩ | ⟨w', prog, hnew, -⟩
  · have happly : ((run (start host frees) (ops' ++ [.programNew registry c])).registries r) = w'.registries r := by
      rw [run, List.foldl_append]
      show (((programNew (run (start host frees) ops') registry c).1).registries r) = _
      rw [hnew]
    rw [happly, hcounts'.installed r, hcounts.installed r]
  · rw [hnew] at hfail
    cases hfail

/-- Two programs on one registry, of which the first is freed, and a third that does not compile. -/
theorem resolver_counted_shared :
    Counted (fun _ : Unit => (some "host", (some 7 : Option Nat)))
      (run (start (fun _ => (some "host", some 7)) fun _ => false)
        [.programNew (some ()) (.acquires true true), .programNew (some ()) (.acquires true true), .programFree 0,
          .programNew (some ()) (.acquires true false)]) := by
  refine (resolver_counted _ _ _ ?_).1
  intro ops' op h
  have hmem : op ∈ ([.programNew (some ()) (.acquires true true), .programNew (some ()) (.acquires true true),
      .programFree 0, .programNew (some ()) (.acquires true false)] : List (Op Unit)) := h.subset (by simp)
  simp only [List.mem_cons, List.not_mem_nil, or_false] at hmem
  rcases hmem with rfl | rfl | rfl | rfl <;> trivial

/-- A construction that fails before the resolver takes it away from a living program. -/
theorem resolver_lost :
    ¬ Counted (fun _ : Unit => (some "host", (some 7 : Option Nat)))
      (run (start (fun _ => (some "host", some 7)) fun _ => false)
        [.programNew (some ()) (.acquires true true), .programNew (some ()) .failsBeforeAcquire]) := by
  intro h
  have hinstalled := h ()
  revert hinstalled
  decide

end

end Cxpr.Engine
