import Cxpr.Engine.Calls
import Cxpr.Engine.Failure

/-! A session after `cxpr_engine_session_reset` and a new one. The reset keeps the context, the results of the last tick and
    the rings of arguments; what it keeps is written before it is read, or empty. -/

namespace Cxpr.Engine
open Expression
variable {D : Type} [Double D]

theorem argsEqual_symm : ∀ {a b : List D}, argsEqual a b = true → argsEqual b a = true
  | [], [], _ => rfl
  | x :: a, y :: b, h => by
    obtain ⟨hxy, hab⟩ : Double.eq x y = true ∧ argsEqual a b = true := by simpa [argsEqual] using h
    simp [argsEqual, Double.eq_symm x y hxy, argsEqual_symm hab]
  | [], _ :: _, h => nomatch h
  | _ :: _, [], h => nomatch h

theorem argsEqual_trans : ∀ {a b c : List D}, argsEqual a b = true → argsEqual b c = true → argsEqual a c = true
  | [], [], [], _, _ => rfl
  | x :: a, y :: b, z :: c, hab, hbc => by
    obtain ⟨hxy, hab⟩ : Double.eq x y = true ∧ argsEqual a b = true := by simpa [argsEqual] using hab
    obtain ⟨hyz, hbc⟩ : Double.eq y z = true ∧ argsEqual b c = true := by simpa [argsEqual] using hbc
    simp [argsEqual, Double.eq_trans x y z hxy hyz, argsEqual_trans hab hbc]
  | [], _ :: _, _, h, _ => nomatch h
  | _ :: _, [], _, h, _ => nomatch h
  | [], [], _ :: _, _, h => nomatch h
  | _ :: _, _ :: _, [], _, h => nomatch h

theorem serves_congr {args args' : List D} (h : argsEqual args args' = true) (source : String) (e : ArgRing D) :
    e.serves source args' = e.serves source args := by
  unfold ArgRing.serves
  congr 1
  apply Bool.eq_iff_iff.mpr
  exact ⟨fun he => argsEqual_trans he (argsEqual_symm h), fun he => argsEqual_trans he h⟩

theorem argRing_upsert (rings : List (ArgRing D)) (source : String) (args : List D) (cap : Nat) {f : ArgRing D → ArgRing D}
    (hf : ∀ e, (f e).source = e.source ∧ (f e).args = e.args) (source' : String) (args' : List D) (cap' : Nat) :
    argRing (rings.upsert (ArgRing.serves source args) (ArgRing.new source args cap) f) source' args' cap' =
      if source' = source ∧ argsEqual args args' = true then f (argRing rings source args cap)
      else argRing rings source' args' cap' := by
  have hkeep : ∀ source args e, (f e).serves source args = e.serves source args := by
    intro source args e
    rw [ArgRing.serves, (hf e).1, (hf e).2]
    rfl
  unfold argRing
  split
  · rename_i hsame
    obtain ⟨rfl, hargs⟩ := hsame
    have hnew : (ArgRing.new source' args cap).serves source' args = true := by
      simp [ArgRing.serves, ArgRing.new, argsEqual_trans hargs (argsEqual_symm hargs)]
    rw [List.find?_upsert_same (serves_congr hargs source') (hkeep source' args) hnew, Option.getD_some]
  · rename_i hother
    rw [List.find?_upsert_other]
    · intro e he
      obtain ⟨hsource, hargs⟩ : e.source = source ∧ argsEqual e.args args = true := by simpa [ArgRing.serves] using he
      by_contra hserves
      obtain ⟨hsource', hargs'⟩ : e.source = source' ∧ argsEqual e.args args' = true := by
        simpa [ArgRing.serves] using hserves
      exact hother ⟨hsource'.symm.trans hsource, argsEqual_trans (argsEqual_symm hargs) hargs'⟩
    · exact hkeep source' args'
    · by_contra hserves
      obtain ⟨hsource', hargs'⟩ : source = source' ∧ argsEqual args args' = true := by
        simpa [ArgRing.serves, ArgRing.new] using hserves
      exact hother ⟨hsource'.symm, hargs'⟩

omit [Double D] in
structure ArgRing.Same (e e' : ArgRing D) : Prop where
  lastAppendCursor : e'.lastAppendCursor = e.lastAppendCursor
  ring : e.ring.Same e'.ring

omit [Double D] in
theorem ArgRing.Same.append {e e' : ArgRing D} (h : e.Same e') (cursor : Int) (v : D) :
    (e.append cursor v).Same (e'.append cursor v) := by
  unfold ArgRing.append
  rw [h.lastAppendCursor]
  split
  · exact h
  · exact ⟨rfl, h.ring.append v⟩

omit [Double D] in
theorem ArgRing.append_key (cursor : Int) (v : D) (e : ArgRing D) :
    (e.append cursor v).source = e.source ∧ (e.append cursor v).args = e.args := by
  unfold ArgRing.append
  split <;> exact ⟨rfl, rfl⟩

def SameRings (caps : String → Option Nat) (rings rings' : List (ArgRing D)) : Prop :=
  ∀ source cap args, caps source = some cap → (argRing rings source args cap).Same (argRing rings' source args cap)

variable {rings : List (ArgRing D)} {source : String} {s s' : Session D} {src src' : Source D} {f : Frame D}
variable {rules : Rules D} {sources sources' : List (Source D)} {c : Calls D}

theorem SameRings.upsert {caps : String → Option Nat} {rings' : List (ArgRing D)} (h : SameRings caps rings rings') {cap : Nat} (hcap : caps source = some cap) (args : List D) (cursor : Int) (v : D) :
    SameRings caps
      (rings.upsert (ArgRing.serves source args) (ArgRing.new source args cap) (ArgRing.append cursor v))
      (rings'.upsert (ArgRing.serves source args) (ArgRing.new source args cap) (ArgRing.append cursor v)) := by
  intro source' cap' args' hcap'
  rw [argRing_upsert rings source args cap (ArgRing.append_key cursor v),
    argRing_upsert rings' source args cap (ArgRing.append_key cursor v)]
  split
  · exact (h source cap args hcap).append cursor v
  · exact h source' cap' args' hcap'

omit [Double D] in
structure Shape where
  name : String
  pull : Bool
  hydrateBare : Bool
  cap : Option Nat

omit [Double D] in
def Source.shape (src : Source D) : Shape := ⟨src.name, src.pull, src.hydrateBare, src.ring.map (·.slots.length)⟩

def Shape.hydrates (sh : Shape) : Bool := sh.hydrateBare || (sh.pull && sh.cap.isSome)

omit [Double D] in
def ringCap (sources : List (Source D)) (source : String) : Option Nat :=
  (sources.find? (·.name == source)).bind fun src => src.shape.cap

omit [Double D] in
theorem skips_iff (src : Source D) : (!src.hydrateBare && !(src.pull && src.ring.isSome)) = !src.shape.hydrates := by
  simp [Source.shape, Shape.hydrates]

omit [Double D] in
theorem shape_sampled (src : Source D) (v : D) : (src.sampled v).shape = src.shape := by
  unfold Source.sampled
  split
  · simp only [Source.shape, Option.map_map]
    congr 2
    funext r
    exact r.length_append v
  · rfl

omit [Double D] in
theorem hydrate_of_hydrates (t : Tick D) {i : Nat} (hsrc : s.sources[i]? = some src)
    (hhydrates : src.shape.hydrates = true) :
    hydrate t s i =
      { s with
        sources := s.sources.set i (src.sampled (t.current s i src))
        sourceMemo :=
          if src.pull then s.sourceMemo else sourceMemoSet s.sourceMemoCap s.sourceMemo ⟨i, [], 0, t.current s i src⟩
        ctx := s.ctx.setValue src.name (.number (t.current s i src)) } := by
  have hset : s.sources.set i src = s.sources := by
    obtain ⟨hi, hget⟩ := List.getElem?_eq_some_iff.mp hsrc
    rw [← hget, List.set_getElem_self]
  unfold hydrate Source.sampled
  rw [hsrc]
  simp only [skips_iff, hhydrates, Bool.not_true, Bool.false_eq_true, if_false]
  cases src.pull with
  | true => rfl
  | false =>
    simp only [Bool.false_eq_true, if_false, hset]
    rfl

omit [Double D] in
theorem hydrate_of_skips (t : Tick D) {i : Nat}
    (h : ∀ src, s.sources[i]? = some src → src.shape.hydrates = false) : hydrate t s i = s := by
  unfold hydrate
  split
  · rfl
  · rename_i src hsrc
    rw [skips_iff, h src hsrc, Bool.not_false, if_pos rfl]

omit [Double D] in
structure AgreeOn (names : String → Prop) (f g : Frame D) : Prop where
  cell : ∀ n, names n → g.cell n = f.cell n
  params : g.paramStores = f.paramStores

omit [Double D] in
theorem AgreeOn.setParamValue {names : String → Prop} {g : Frame D} (h : AgreeOn names f g) (name : String) (v : Value D) :
    AgreeOn names (f.setParamValue name v) (g.setParamValue name v) where
  cell n hn := Frame.cell_setParamValue_congr name v (h.cell n hn)
  params := Frame.paramStores_setParamValue_congr name v h.params

omit [Double D] in
theorem AgreeOn.setStruct {names : String → Prop} {g : Frame D} (h : AgreeOn names f g) (name : String)
    (v : List (String × Value D)) : AgreeOn names (f.setStruct name v) (g.setStruct name v) where
  cell n hn := by
    have hcell := h.cell n hn
    simp only [Frame.cell, Cell.mk.injEq] at hcell
    obtain ⟨hvar, hbool, hint64, hstring, harray, hstruct⟩ := hcell
    by_cases hname : n = name
    · subst hname
      simp [Frame.setStruct, Frame.cell, *]
    · simp [Frame.setStruct, Frame.cell, *]
  params := h.params

theorem AgreeOn.setting {names : String → Prop} {f g : Frame D} (h : AgreeOn names f g) (setting : Setting D) :
    AgreeOn names (setting.apply f) (setting.apply g) := by
  cases setting with
  | param name value => exact h.setParamValue name value
  | role name members =>
    have hstruct := h.setStruct ("__cxpr_basket_role_" ++ name) (roleStruct members)
    unfold Setting.apply
    dsimp only
    split
    · exact h
    · split
      · exact hstruct.setParamValue name _
      · exact hstruct

theorem AgreeOn.settings {names : String → Prop} {f g : Frame D} (h : AgreeOn names f g) (settings : List (Setting D)) :
    AgreeOn names (settings.foldl Setting.apply f) (settings.foldl Setting.apply g) := by
  induction settings generalizing f g with
  | nil => exact h
  | cons setting settings ih => exact ih (h.setting setting)

omit [Double D] in
def Unwritten (rules : Rules D) (pending : List Nat) (n : String) : Prop :=
  ∀ i ∈ pending, ∀ src, rules.sources[i]? = some src → src.shape.hydrates = true → src.name ≠ n

omit [Double D] in
theorem Unwritten.mono {l l' : List Nat} (h : l' ⊆ l) {n : String} (hn : Unwritten rules l n) :
    Unwritten rules l' n := fun i hi => hn i (h hi)

structure Twin (rules : Rules D) (pending : List Nat) (s s' : Session D) : Prop where
  cursor : s'.cursor = s.cursor
  ctx : AgreeOn (Unwritten rules pending) s.ctx s'.ctx
  shapes : s.sources.map Source.shape = rules.sources.map Source.shape
  shapes' : s'.sources.map Source.shape = rules.sources.map Source.shape
  rings : ∀ (i : Nat) (src src' : Source D) (r r' : RingBuffer D), s.sources[i]? = some src → s'.sources[i]? = some src' →
    src.ring = some r → src'.ring = some r' → r.Same r'
  exprRings : s'.exprRings = s.exprRings
  argRings : SameRings (ringCap rules.sources) s.argRings s'.argRings
  sourceMemo : s'.sourceMemo = s.sourceMemo
  sourceMemoCap : s'.sourceMemoCap = s.sourceMemoCap
  entries : s'.entries.map Entry.source = s.entries.map Entry.source
  transitions : s'.transitions = s.transitions
  eventCap : s'.eventCap = s.eventCap

omit [Double D] in
theorem shape_at (h : sources'.map Source.shape = sources.map Source.shape) {i : Nat} (hsrc : sources[i]? = some src) : ∃ src', sources'[i]? = some src' ∧ src'.shape = src.shape := by
  have hi := congrArg (·[i]?) h
  simp only [List.getElem?_map, hsrc, Option.map_some] at hi
  obtain ⟨src', hsrc', hshape⟩ := Option.map_eq_some_iff.mp hi
  exact ⟨src', hsrc', hshape⟩

omit [Double D] in
theorem shapes_set {i : Nat} {src₁ : Source D} (hsrc : sources[i]? = some src)
    (hshape : src₁.shape = src.shape) : (sources.set i src₁).map Source.shape = sources.map Source.shape := by
  obtain ⟨hi, rfl⟩ := List.getElem?_eq_some_iff.mp hsrc
  rw [List.map_set, hshape, ← List.getElem_map Source.shape, List.set_getElem_self]
  simpa using hi

theorem Twin.weaken (h : Twin rules [] s s') (l : List Nat) : Twin rules l s s' :=
  { h with ctx := ⟨fun n hn => h.ctx.cell n (hn.mono (List.nil_subset l)), h.ctx.params⟩ }

theorem currentSource_congr (nan : D) (host : Host D) (hcursor : s'.cursor = s.cursor) (i : Nat) (h : src'.shape = src.shape) : currentSource nan host s' i src' = currentSource nan host s i src := by
  simp only [Source.shape, Shape.mk.injEq] at h
  obtain ⟨hname, hpull, _, _⟩ := h
  unfold currentSource sourceValue
  rw [hpull, hname, hcursor]
  cases src.pull <;> rfl

theorem Twin.hydrate (nan : D) (turn : Turn D) {i : Nat} {l : List Nat}
    (h : Twin rules (i :: l) s s') :
    Twin rules l (Engine.hydrate (turn.tick nan rules) s i) (Engine.hydrate (turn.tick nan rules) s' i) := by
  by_cases hskips : ∀ src, rules.sources[i]? = some src → src.shape.hydrates = false
  · have hskips₁ : ∀ sources : List (Source D), sources.map Source.shape = rules.sources.map Source.shape →
        ∀ src, sources[i]? = some src → src.shape.hydrates = false := by
      intro sources hshapes src hsrc
      obtain ⟨src₀, hsrc₀, hshape⟩ := shape_at hshapes.symm hsrc
      rw [← hshape]
      exact hskips src₀ hsrc₀
    rw [hydrate_of_skips _ (hskips₁ _ h.shapes), hydrate_of_skips _ (hskips₁ _ h.shapes')]
    refine { h with ctx := ⟨fun n hn => h.ctx.cell n ?_, h.ctx.params⟩ }
    intro j hj src hsrc hhydrates
    rcases List.mem_cons.mp hj with rfl | hj
    · rw [hskips src hsrc] at hhydrates
      cases hhydrates
    · exact hn j hj src hsrc hhydrates
  · push Not at hskips
    obtain ⟨src₀, hsrc₀, hhydrates⟩ := hskips
    have hhydrates₀ : src₀.shape.hydrates = true := by simpa using hhydrates
    obtain ⟨src, hsrc, hshape⟩ := shape_at h.shapes hsrc₀
    obtain ⟨src', hsrc', hshape'⟩ := shape_at h.shapes' hsrc₀
    have hvalue : currentSource nan turn.host s' i src' = currentSource nan turn.host s i src :=
      currentSource_congr nan turn.host h.cursor i (hshape'.trans hshape.symm)
    obtain ⟨hname, hpull⟩ : src'.name = src.name ∧ src'.pull = src.pull := by
      have hboth := hshape'.trans hshape.symm
      simp only [Source.shape, Shape.mk.injEq] at hboth
      exact ⟨hboth.1, hboth.2.1⟩
    have hname₀ : src.name = src₀.name := congrArg Shape.name hshape
    rw [hydrate_of_hydrates _ hsrc (hshape ▸ hhydrates₀), hydrate_of_hydrates _ hsrc' (hshape' ▸ hhydrates₀)]
    simp only [Turn.tick, hvalue, hname, hpull]
    refine { h with ctx := ⟨fun n hn => ?_, ?_⟩, shapes := ?_, shapes' := ?_, rings := ?_, sourceMemo := ?_ }
    · rw [Frame.cell_setValue, Frame.cell_setValue]
      split
      · rfl
      · rename_i hne
        apply h.ctx.cell
        intro j hj src₁ hsrc₁ hhydrates₁
        rcases List.mem_cons.mp hj with rfl | hj
        · rw [hsrc₀] at hsrc₁
          cases hsrc₁
          exact fun heq => hne (heq.symm.trans hname₀.symm)
        · exact hn j hj src₁ hsrc₁ hhydrates₁
    · rw [Frame.paramStores_setValue, Frame.paramStores_setValue, h.ctx.params]
    · exact (shapes_set hsrc (shape_sampled src _)).trans h.shapes
    · exact (shapes_set hsrc' (shape_sampled src' _)).trans h.shapes'
    · intro j x x' r r' hx hx' hr hr'
      by_cases hj : i = j
      · subst hj
        obtain ⟨hi, _⟩ := List.getElem?_eq_some_iff.mp hsrc
        obtain ⟨hi', _⟩ := List.getElem?_eq_some_iff.mp hsrc'
        rw [List.getElem?_set_self hi] at hx
        rw [List.getElem?_set_self hi'] at hx'
        cases hx
        cases hx'
        unfold Source.sampled at hr hr'
        rw [hpull] at hr'
        split at hr
        · rename_i hpulled
          rw [if_pos hpulled] at hr'
          obtain ⟨r₀, hr₀, rfl⟩ := Option.map_eq_some_iff.mp hr
          obtain ⟨r₀', hr₀', rfl⟩ := Option.map_eq_some_iff.mp hr'
          exact (h.rings i src src' r₀ r₀' hsrc hsrc' hr₀ hr₀').append _
        · rename_i hpulled
          rw [if_neg hpulled] at hr'
          exact h.rings i src src' r r' hsrc hsrc' hr hr'
      · rw [List.getElem?_set_ne hj] at hx hx'
        exact h.rings j x x' r r' hx hx' hr hr'
    · rw [h.sourceMemo, h.sourceMemoCap]

theorem Twin.hydrates (nan : D) (turn : Turn D) (l : List Nat) (h : Twin rules l s s') :
    Twin rules [] (l.foldl (Engine.hydrate (turn.tick nan rules)) s) (l.foldl (Engine.hydrate (turn.tick nan rules)) s') := by
  induction l generalizing s s' with
  | nil => exact h
  | cons i l ih => exact ih (h.hydrate nan turn)

theorem Twin.advance (nan : D) (turn : Turn D)
    (h : Twin rules (List.range rules.sources.length) s s') :
    Twin rules [] (Engine.advance nan (turn.tick nan rules) s) (Engine.advance nan (turn.tick nan rules) s') := by
  have hlength : s.sources.length = rules.sources.length := by simpa using congrArg List.length h.shapes
  have hlength' : s'.sources.length = rules.sources.length := by simpa using congrArg List.length h.shapes'
  unfold Engine.advance
  dsimp only
  rw [hlength, hlength']
  have hstart : Twin rules (List.range rules.sources.length) (started (turn.tick nan rules) s)
      (started (turn.tick nan rules) s') :=
    { h with
      cursor := by simp only [started, h.cursor]
      ctx := h.ctx.settings turn.settings
      sourceMemo := rfl }
  have hread := hstart.hydrates nan turn
  exact { hread with
    ctx := ⟨hread.ctx.cell, hread.ctx.params⟩
    exprRings := congrArg (List.map (·.append (.number nan))) hread.exprRings }

omit [Double D] in
theorem ringCap_congr (h : sources'.map Source.shape = sources.map Source.shape)
    (source : String) : ringCap sources' source = ringCap sources source := by
  have hcap : ∀ l : List (Source D), ringCap l source = ((l.map Source.shape).find? (·.name == source)).bind Shape.cap := by
    intro l
    rw [List.find?_map, Option.bind_map]
    rfl
  rw [hcap, hcap, h]

omit [Double D] in
theorem findSource_congr (h : sources'.map Source.shape = sources.map Source.shape)
    (source : String) : sources'.findIdx? (·.name == source) = sources.findIdx? (·.name == source) := by
  have hfind : ∀ l : List (Source D), l.findIdx? (·.name == source) = (l.map Source.shape).findIdx? (·.name == source) := by
    intro l
    rw [List.findIdx?_map]
    rfl
  rw [hfind, hfind, h]

omit [Double D] in
theorem ringCap_of_findIdx {i : Nat}
    (hi : sources.findIdx? (·.name == source) = some i) (hsrc : sources[i]? = some src) :
    src.name = source ∧ ringCap sources source = src.shape.cap := by
  obtain ⟨hlt, hname, hbefore⟩ := List.findIdx?_eq_some_iff_getElem.mp hi
  obtain ⟨_, hget⟩ := List.getElem?_eq_some_iff.mp hsrc
  rw [hget] at hname
  have hfind : sources.find? (·.name == source) = some src := by
    rw [List.find?_eq_some_iff_getElem]
    refine ⟨hname, i, hlt, hget, fun j hj => ?_⟩
    simpa using hbefore j hj
  refine ⟨by simpa using hname, ?_⟩
  rw [ringCap, hfind]
  rfl

structure SameCalls (rules : Rules D) (c c' : Calls D) : Prop where
  argRings : SameRings (ringCap rules.sources) c.argRings c'.argRings
  sourceMemo : c'.sourceMemo = c.sourceMemo
  cachedStructs : c'.cachedStructs = c.cachedStructs
  evalMemo : c'.evalMemo = c.evalMemo

theorem Twin.sourceValue (nan : D) (host : Host D) (h : Twin rules [] s s') {i : Nat} (hsrc : s.sources[i]? = some src) (hsrc' : s'.sources[i]? = some src')
    (hshape : src'.shape = src.shape) (hcap : ringCap rules.sources src.name = src.shape.cap) (args : List D) (offset : Nat)
    {rings' : List (ArgRing D)} (hrings : SameRings (ringCap rules.sources) rings rings') :
    (Engine.sourceValue nan host s' i src' args offset rings').1 = (Engine.sourceValue nan host s i src args offset rings).1 ∧
      SameRings (ringCap rules.sources) (Engine.sourceValue nan host s i src args offset rings).2
        (Engine.sourceValue nan host s' i src' args offset rings').2 := by
  obtain ⟨hname, hpull, _, hcaps⟩ : src'.name = src.name ∧ src'.pull = src.pull ∧ src'.hydrateBare = src.hydrateBare ∧
      src'.ring.map (·.slots.length) = src.ring.map (·.slots.length) := by
    simpa only [Source.shape, Shape.mk.injEq] using hshape
  unfold Engine.sourceValue
  rw [hname, hpull, h.cursor]
  cases hpulled : src.pull with
  | false => exact ⟨rfl, hrings⟩
  | true =>
    rcases hring : src.ring with _ | r
    · have hring' : src'.ring = none := by simpa [hring] using hcaps
      rw [hring']
      cases args <;> exact ⟨rfl, hrings⟩
    · obtain ⟨r', hring', hlength⟩ : ∃ r', src'.ring = some r' ∧ r'.slots.length = r.slots.length := by
        rw [hring, Option.map_some] at hcaps
        exact Option.map_eq_some_iff.mp hcaps
      have hsame := h.rings i src src' r r' hsrc hsrc' hring hring'
      have hsize : ringCap rules.sources src.name = some r.slots.length := by
        rw [hcap, Source.shape, hring]
        rfl
      rw [hring']
      cases args with
      | nil =>
        refine ⟨?_, hrings⟩
        simp only [if_true, hsame.read]
      | cons a args =>
        simp only [if_true, hlength]
        refine ⟨?_, hrings.upsert hsize (a :: args) s.cursor _⟩
        rw [((hrings src.name r.slots.length (a :: args) hsize).append s.cursor _).ring.read]

theorem Twin.resolveSourceCall (nan : D) (host : Host D) (h : Twin rules [] s s')
    {i : Nat} (hsrc : s.sources[i]? = some src) (hsrc' : s'.sources[i]? = some src')
    (hshape : src'.shape = src.shape) (hcap : ringCap rules.sources src.name = src.shape.cap) (args : List D) (offset : Nat)
    {c' : Calls D} (hc : SameCalls rules c c') :
    (Engine.resolveSourceCall nan host s' i src' args offset c').1 =
        (Engine.resolveSourceCall nan host s i src args offset c).1 ∧
      SameCalls rules (Engine.resolveSourceCall nan host s i src args offset c).2
        (Engine.resolveSourceCall nan host s' i src' args offset c').2 := by
  obtain ⟨hvalue, hrings⟩ := h.sourceValue nan host hsrc hsrc' hshape hcap args offset hc.argRings
  unfold Engine.resolveSourceCall
  rw [hc.sourceMemo]
  split
  · exact ⟨rfl, hc⟩
  · refine ⟨hvalue, { hc with argRings := hrings, sourceMemo := ?_ }⟩
    dsimp only
    rw [hvalue, h.sourceMemoCap]

theorem Twin.trackedExpressionValue (h : Twin rules [] s s')
    (entries : List (Entry D)) (index lookback : Nat) :
    Engine.trackedExpressionValue rules s' entries index lookback = Engine.trackedExpressionValue rules s entries index lookback := by
  unfold Engine.trackedExpressionValue
  rw [h.exprRings]

theorem Twin.inquiry (nan : D) (host : Host D) (h : Twin rules [] s s')
    (entries : List (Entry D)) (q : Inquiry D) {c' : Calls D} (hc : SameCalls rules c c') :
    (q.run nan host rules s' entries c').1 = (q.run nan host rules s entries c).1 ∧
      SameCalls rules (q.run nan host rules s entries c).2 (q.run nan host rules s' entries c').2 := by
  have hshapes := h.shapes'.trans h.shapes.symm
  induction q generalizing c c' with
  | done result cachedStructs evalMemo => exact ⟨rfl, { hc with cachedStructs := rfl, evalMemo := rfl }⟩
  | call source args offset next ih =>
    unfold Inquiry.run
    rw [findSource_congr hshapes]
    rcases hfind : s.sources.findIdx? (·.name == source) with _ | i
    · rw [hfind]
      exact ih none hc
    · obtain ⟨hlt, _⟩ := List.findIdx?_eq_some_iff_getElem.mp hfind
      have hsrc : s.sources[i]? = some s.sources[i] := List.getElem?_eq_getElem hlt
      obtain ⟨src', hsrc', hshape⟩ := shape_at hshapes hsrc
      obtain ⟨hname, hcap⟩ := ringCap_of_findIdx hfind hsrc
      have hcap' : ringCap rules.sources s.sources[i].name = s.sources[i].shape.cap := by
        rw [← ringCap_congr h.shapes, hname, hcap]
      obtain ⟨hvalue, hcalls⟩ := h.resolveSourceCall nan host hsrc hsrc' hshape hcap' args offset hc
      rw [hfind]
      dsimp only
      rw [hsrc, hsrc']
      dsimp only
      rw [hvalue]
      exact ih _ hcalls
  | tracked index lookback next ih =>
    unfold Inquiry.run
    rw [h.trackedExpressionValue]
    exact ih _ hc

theorem Twin.scope_eq (h : Twin rules [] s s') : scope s' = scope s := by
  have hcell : s'.ctx.cell = s.ctx.cell := funext fun n => h.ctx.cell n fun i hi => nomatch hi
  rw [scope, scope, hcell, h.ctx.params]

theorem Twin.evaluation (nan : D) (turn : Turn D)
    (h : Twin rules (List.range rules.sources.length) s s') :
    (Engine.evaluation nan rules (turn.tick nan rules) s').1 = (Engine.evaluation nan rules (turn.tick nan rules) s).1 ∧
      (Engine.evaluation nan rules (turn.tick nan rules) s').2.1 =
        (Engine.evaluation nan rules (turn.tick nan rules) s).2.1 ∧
      SameCalls rules (Engine.evaluation nan rules (turn.tick nan rules) s).2.2
        (Engine.evaluation nan rules (turn.tick nan rules) s').2.2 := by
  have hadvance := h.advance nan turn
  unfold Engine.evaluation evaluatorEval
  rw [clear_congr hadvance.entries]
  apply evalLoop_related
  · intro idx entries c c' hc
    rw [Turn.evalEntry_eq, Turn.evalEntry_eq, hadvance.scope_eq, hadvance.cursor, hc.cachedStructs, hc.evalMemo]
    exact hadvance.inquiry nan turn.host entries _ hc
  · exact ⟨hadvance.argRings, hadvance.sourceMemo, rfl, rfl⟩

theorem Twin.tick (nan : D) {rules : Rules D} (turn : Turn D) {s s' : Session D}
    (h : Twin rules (List.range rules.sources.length) s s') :
    (Engine.tick nan rules (turn.tick nan rules) s').1 = (Engine.tick nan rules (turn.tick nan rules) s).1 ∧
      (Engine.tick nan rules (turn.tick nan rules) s').2.entries = (Engine.tick nan rules (turn.tick nan rules) s).2.entries ∧
      Twin rules (List.range rules.sources.length) (Engine.tick nan rules (turn.tick nan rules) s).2
        (Engine.tick nan rules (turn.tick nan rules) s').2 := by
  have hadvance := h.advance nan turn
  obtain ⟨herr, hentries, hcalls⟩ := h.evaluation nan turn
  rcases heval : Engine.evaluation nan rules (turn.tick nan rules) s with ⟨err, entries, c⟩
  rcases heval' : Engine.evaluation nan rules (turn.tick nan rules) s' with ⟨err', entries', c'⟩
  rw [heval, heval'] at herr hentries hcalls
  obtain rfl : err' = err := herr
  obtain rfl : entries' = entries := hentries
  cases err' with
  | some err =>
    rw [tick_of_failed heval, tick_of_failed heval']
    exact ⟨rfl, rfl, { hadvance.weaken _ with
      argRings := hcalls.argRings
      sourceMemo := hcalls.sourceMemo
      entries := rfl }⟩
  | none =>
    rw [tick_of_evaluated heval, tick_of_evaluated heval', hadvance.eventCap, hadvance.transitions, hadvance.exprRings]
    exact ⟨rfl, rfl, { hadvance.weaken _ with
      argRings := hcalls.argRings
      sourceMemo := hcalls.sourceMemo
      entries := rfl
      exprRings := rfl
      transitions := rfl }⟩

/-- What the host gets of each tick: its events or its error, and the results of the expressions. -/
def outputs (nan : D) (rules : Rules D) :
    Session D → List (Turn D) → List (Except Error (List (Event D)) × (String → Option (Value D)))
  | _, [] => []
  | s, turn :: turns =>
    let (result, s) := tick nan rules (turn.tick nan rules) s
    (result, get s.entries) :: outputs nan rules s turns

theorem Twin.outputs (nan : D) (h : Twin rules (List.range rules.sources.length) s s')
    (turns : List (Turn D)) : Engine.outputs nan rules s' turns = Engine.outputs nan rules s turns := by
  induction turns generalizing s s' with
  | nil => rfl
  | cons turn turns ih =>
    obtain ⟨hresult, hentries, hnext⟩ := h.tick nan turn
    simp only [Engine.outputs]
    rw [hresult, hentries, ih hnext]

def RingsFit (rules : Rules D) (rings : List (ArgRing D)) : Prop :=
  ∀ e ∈ rings, ∀ cap, ringCap rules.sources e.source = some cap → e.ring.slots.length = cap

structure Grown (rules : Rules D) (f : Frame D) (s : Session D) : Prop where
  ctx : AgreeOn (Unwritten rules (List.range rules.sources.length)) f s.ctx
  shapes : s.sources.map Source.shape = rules.sources.map Source.shape
  argRings : RingsFit rules s.argRings
  exprRings : s.exprRings.map (·.slots.length) = rules.tracked.map (·.maxDepth + 1)
  entries : s.entries.map Entry.source = rules.exprs
  transitions : s.transitions.length = rules.watches.length
  eventCap : s.eventCap = rules.watches.length
  sourceMemoCap : s.sourceMemoCap = rules.sources.length * 16 + 32

theorem grown_new (rules : Rules D) (f : Frame D) : Grown rules f (sessionNew rules f) where
  ctx := ⟨fun _ _ => rfl, rfl⟩
  shapes := rfl
  argRings := fun e he => nomatch he
  exprRings := by simp [sessionNew]
  entries := by
    rw [sessionNew, List.map_map]
    exact List.map_id _
  transitions := by simp [sessionNew]
  eventCap := rfl
  sourceMemoCap := rfl

theorem Grown.reset (h : Grown rules f s) : Grown rules f (sessionReset s) :=
  { h with
    ctx := ⟨h.ctx.cell, h.ctx.params⟩
    shapes := by
      rw [← h.shapes, sessionReset, List.map_map]
      congr 1
      funext src
      simp [Source.shape, RingBuffer.clear, Option.map_map, Function.comp_def]
    argRings := by
      intro e he cap hcap
      obtain ⟨e₀, he₀, rfl⟩ := List.mem_map.mp he
      exact h.argRings e₀ he₀ cap hcap
    exprRings := by
      rw [← h.exprRings, sessionReset, List.map_map]
      congr 1
      funext r
      simp
    transitions := by simpa [sessionReset] using h.transitions }

omit [Double D] in
theorem Grown.hydrate (h : Grown rules f s) (t : Tick D) (i : Nat) :
    Grown rules f (Engine.hydrate t s i) := by
  by_cases hskips : ∀ src, s.sources[i]? = some src → src.shape.hydrates = false
  · rw [hydrate_of_skips t hskips]
    exact h
  · push Not at hskips
    obtain ⟨src, hsrc, hhydrates⟩ := hskips
    have hhydrates' : src.shape.hydrates = true := by simpa using hhydrates
    obtain ⟨src₀, hsrc₀, hshape⟩ := shape_at h.shapes.symm hsrc
    have hname : src₀.name = src.name := congrArg Shape.name hshape
    rw [hydrate_of_hydrates t hsrc hhydrates']
    refine { h with ctx := ⟨fun n hn => ?_, ?_⟩, shapes := (shapes_set hsrc (shape_sampled src _)).trans h.shapes }
    · have hne : n ≠ src.name := by
        obtain ⟨hi, _⟩ := List.getElem?_eq_some_iff.mp hsrc₀
        have hwritten := hn i (List.mem_range.mpr hi) src₀ hsrc₀ (hshape ▸ hhydrates')
        exact fun heq => hwritten (hname.trans heq.symm)
      rw [Frame.cell_setValue_of_ne _ _ hne, h.ctx.cell n hn]
    · rw [Frame.paramStores_setValue, h.ctx.params]

omit [Double D] in
theorem Grown.hydrates (h : Grown rules f s) (t : Tick D) (l : List Nat) :
    Grown rules f (l.foldl (Engine.hydrate t) s) := by
  induction l generalizing s with
  | nil => exact h
  | cons i l ih => exact ih (h.hydrate t i)

theorem Grown.advance (h : Grown rules f s) (nan : D) (turn : Turn D) :
    Grown rules (turn.settings.foldl Setting.apply f) (Engine.advance nan (turn.tick nan rules) s) := by
  have hstart : Grown rules (turn.settings.foldl Setting.apply f) (started (turn.tick nan rules) s) :=
    { h with ctx := h.ctx.settings turn.settings }
  have hread := hstart.hydrates (turn.tick nan rules) (List.range s.sources.length)
  exact { hread with
    ctx := ⟨hread.ctx.cell, hread.ctx.params⟩
    exprRings := by
      rw [advance_exprRings, List.map_map, ← h.exprRings]
      simp [Function.comp_def] }

theorem RingsFit.upsert (h : RingsFit rules rings) {cap : Nat}
    (hcap : ringCap rules.sources source = some cap) (args : List D) (cursor : Int) (v : D) :
    RingsFit rules
      (rings.upsert (ArgRing.serves source args) (ArgRing.new source args cap) (ArgRing.append cursor v)) := by
  have hlength : ∀ e : ArgRing D, (e.append cursor v).ring.slots.length = e.ring.slots.length := by
    intro e
    unfold ArgRing.append
    split
    · rfl
    · exact e.ring.length_append v
  intro e he cap' hcap'
  rcases List.mem_upsert he with hold | ⟨e₀, he₀, rfl⟩
  · exact h e hold cap' hcap'
  · rw [(ArgRing.append_key cursor v e₀).1] at hcap'
    rw [hlength]
    rcases List.mem_cons.mp he₀ with rfl | hold
    · have heq : some cap = some cap' := hcap.symm.trans hcap'
      cases heq
      exact List.length_replicate
    · exact h e₀ hold cap' hcap'

theorem Inquiry.run_fits (nan : D) (host : Host D)
    (hshapes : s.sources.map Source.shape = rules.sources.map Source.shape) (entries : List (Entry D)) (q : Inquiry D) (hc : RingsFit rules c.argRings) : RingsFit rules (q.run nan host rules s entries c).2.argRings := by
  induction q generalizing c with
  | done result cachedStructs evalMemo => exact hc
  | tracked index lookback next ih => exact ih _ hc
  | call source args offset next ih =>
    unfold Inquiry.run
    rcases hfind : s.sources.findIdx? (·.name == source) with _ | i
    · rw [hfind]
      exact ih none hc
    · obtain ⟨hlt, _⟩ := List.findIdx?_eq_some_iff_getElem.mp hfind
      have hsrc : s.sources[i]? = some s.sources[i] := List.getElem?_eq_getElem hlt
      obtain ⟨hname, hcap⟩ := ringCap_of_findIdx hfind hsrc
      rw [ringCap_congr hshapes, ← hname] at hcap
      rw [hfind]
      dsimp only
      rw [hsrc]
      refine ih _ ?_
      unfold Engine.resolveSourceCall
      split
      · exact hc
      · show RingsFit rules (Engine.sourceValue nan host s i s.sources[i] args offset c.argRings).2
        unfold Engine.sourceValue
        rcases hring : s.sources[i].ring with _ | r
        · split
          · cases args <;> exact hc
          · exact hc
        · have hsize : ringCap rules.sources s.sources[i].name = some r.slots.length := by
            rw [hcap, Source.shape, hring]
            rfl
          split
          · cases args with
            | nil => exact hc
            | cons a args => exact hc.upsert hsize _ _ _
          · exact hc

omit [Double D] in
theorem fillRings_lengths (nan : D) {tracked : List Tracked} (entries : List (Entry D)) {rings : List (RingBuffer (Value D))}
    (h : rings.map (·.slots.length) = tracked.map (·.maxDepth + 1)) :
    (fillRings nan tracked entries rings).map (·.slots.length) = tracked.map (·.maxDepth + 1) := by
  induction tracked generalizing rings with
  | nil => rfl
  | cons t tracked ih =>
    cases rings with
    | nil => cases h
    | cons r rings =>
      obtain ⟨hr, hrest⟩ : r.slots.length = t.maxDepth + 1 ∧ rings.map (·.slots.length) = tracked.map (·.maxDepth + 1) := by
        simpa using h
      have hnewest : ∀ v, (r.setNewest v).slots.length = t.maxDepth + 1 := fun v => List.length_set.trans hr
      exact congrArg₂ List.cons (hnewest _) (ih hrest)

theorem Grown.evaluation (h : Grown rules f s) (nan : D) (turn : Turn D) :
    (Engine.evaluation nan rules (turn.tick nan rules) s).2.1.map Entry.source = rules.exprs ∧
      RingsFit rules (Engine.evaluation nan rules (turn.tick nan rules) s).2.2.argRings := by
  have hadvance := h.advance nan turn
  unfold Engine.evaluation
  refine ⟨(evaluatorEval_sources _ _ _ _).trans hadvance.entries, ?_⟩
  have hentry : ∀ idx entries (c c' : Calls D), c' = c ∧ RingsFit rules c.argRings →
      ((turn.tick nan rules).evalEntry (Engine.advance nan (turn.tick nan rules) s) idx entries c').1 =
          ((turn.tick nan rules).evalEntry (Engine.advance nan (turn.tick nan rules) s) idx entries c).1 ∧
        ((turn.tick nan rules).evalEntry (Engine.advance nan (turn.tick nan rules) s) idx entries c').2 =
          ((turn.tick nan rules).evalEntry (Engine.advance nan (turn.tick nan rules) s) idx entries c).2 ∧
        RingsFit rules ((turn.tick nan rules).evalEntry (Engine.advance nan (turn.tick nan rules) s) idx entries c).2.argRings := by
    rintro idx entries c c' ⟨rfl, hc⟩
    rw [Turn.evalEntry_eq]
    exact ⟨rfl, rfl, Inquiry.run_fits nan turn.host hadvance.shapes entries _ hc⟩
  have hstart : RingsFit rules (Calls.argRings
      { argRings := (Engine.advance nan (turn.tick nan rules) s).argRings
        sourceMemo := (Engine.advance nan (turn.tick nan rules) s).sourceMemo }) := hadvance.argRings
  exact (evalLoop_related hentry rules.evalOrder (clear (Engine.advance nan (turn.tick nan rules) s).entries)
    ⟨rfl, hstart⟩).2.2.2

theorem Grown.tick {rules : Rules D} {f : Frame D} {s : Session D} (h : Grown rules f s) (nan : D) (turn : Turn D) :
    Grown rules (turn.settings.foldl Setting.apply f) (Engine.tick nan rules (turn.tick nan rules) s).2 := by
  have hadvance := h.advance nan turn
  obtain ⟨hentries, hrings⟩ := h.evaluation nan turn
  rcases heval : Engine.evaluation nan rules (turn.tick nan rules) s with ⟨err, entries, c⟩
  rw [heval] at hentries hrings
  cases err with
  | some err =>
    rw [tick_of_failed heval]
    exact { hadvance with entries := hentries, argRings := hrings }
  | none =>
    rw [tick_of_evaluated heval]
    exact { hadvance with
      entries := hentries
      argRings := hrings
      exprRings := fillRings_lengths nan entries hadvance.exprRings
      transitions := (detect_length nan entries _ rules.watches _ []).trans hadvance.transitions }

inductive Move (D : Type) where
  | turn (t : Turn D)
  | reset

def Move.apply (nan : D) (rules : Rules D) (s : Session D) : Move D → Session D
  | .turn t => (tick nan rules (t.tick nan rules) s).2
  | .reset => sessionReset s

def Move.settle (f : Frame D) : Move D → Frame D
  | .turn t => t.settings.foldl Setting.apply f
  | .reset => f

theorem Grown.moves {rules : Rules D} {f : Frame D} {s : Session D} (h : Grown rules f s) (nan : D) (moves : List (Move D)) :
    Grown rules (moves.foldl Move.settle f) (moves.foldl (Move.apply nan rules) s) := by
  induction moves generalizing f s with
  | nil => exact h
  | cons move moves ih =>
    cases move with
    | turn t => exact ih (h.tick nan t)
    | reset => exact ih h.reset

omit [Double D] in
/-- The rings of the sources as `cxpr_engine_session_new` allocates them. -/
def Source.Fresh (src : Source D) : Prop := ∀ r, src.ring = some r → 0 < r.slots.length ∧ r.head = 0 ∧ r.count = 0

theorem RingsFit.reset (hrules : ∀ src ∈ rules.sources, src.Fresh)
    (h : RingsFit rules rings) :
    SameRings (ringCap rules.sources) (rings.map fun a => { a with ring := a.ring.clear, lastAppendCursor := -1 }) [] := by
  intro source cap args hcap
  have hpos : 0 < cap := by
    obtain ⟨src, hsrc, hring⟩ := Option.bind_eq_some_iff.mp hcap
    obtain ⟨r, hr, rfl⟩ := Option.map_eq_some_iff.mp hring
    exact (hrules src (List.mem_of_find?_eq_some hsrc) r hr).1
  have hnew : (argRing ([] : List (ArgRing D)) source args cap) = ArgRing.new source args cap := rfl
  have hlength : (ArgRing.new source args cap).ring.slots.length = cap := List.length_replicate
  rw [hnew, argRing, List.find?_map]
  rcases hfind : rings.find? _ with _ | e
  · exact ⟨rfl, RingBuffer.same_of_empty (Nat.lt_of_lt_of_eq hpos hlength.symm) rfl ⟨rfl, rfl⟩ ⟨rfl, rfl⟩⟩
  · have hserves : e.serves source args = true := List.find?_some hfind
    have hsource : e.source = source := by
      obtain ⟨hsource, _⟩ : e.source = source ∧ argsEqual e.args args = true := by simpa [ArgRing.serves] using hserves
      exact hsource
    have hsize : e.ring.slots.length = cap := h e (List.mem_of_find?_eq_some hfind) cap (hsource ▸ hcap)
    refine ⟨rfl, RingBuffer.same_of_empty ?_ ?_ ⟨rfl, rfl⟩ ⟨rfl, rfl⟩⟩
    · exact Nat.lt_of_lt_of_eq hpos hsize.symm
    · exact hlength.trans hsize.symm

theorem Grown.twin (hrules : ∀ src ∈ rules.sources, src.Fresh)
    (h : Grown rules f s) : Twin rules (List.range rules.sources.length) (sessionReset s) (sessionNew rules f) where
  cursor := rfl
  ctx := ⟨fun n hn => (h.ctx.cell n hn).symm, h.ctx.params.symm⟩
  shapes := h.reset.shapes
  shapes' := rfl
  rings := by
    intro i src src' r r' hsrc hsrc' hr hr'
    obtain ⟨hpos, hempty⟩ := hrules src' (List.mem_of_getElem? hsrc') r' hr'
    obtain ⟨src₁, hsrc₁, hshape⟩ := shape_at h.reset.shapes hsrc'
    rw [hsrc] at hsrc₁
    cases hsrc₁
    have hlength : r.slots.length = r'.slots.length := by
      have hcaps := congrArg Shape.cap hshape
      simpa [Source.shape, hr, hr'] using hcaps
    rw [sessionReset, List.getElem?_map] at hsrc
    obtain ⟨src₀, _, rfl⟩ := Option.map_eq_some_iff.mp hsrc
    obtain ⟨r₀, _, rfl⟩ := Option.map_eq_some_iff.mp hr
    exact RingBuffer.same_of_empty (Nat.lt_of_lt_of_eq hpos hlength.symm) hlength.symm ⟨rfl, rfl⟩ hempty
  exprRings := by
    have hreset : (sessionReset s).exprRings =
        (s.exprRings.map (·.slots.length)).map fun n => ⟨List.replicate n (.number Double.zero), 0, 0⟩ := by
      simp only [sessionReset, List.map_map]
      refine List.map_congr_left fun r _ => ?_
      simp [RingBuffer.clear, List.map_const']
    rw [hreset, h.exprRings, List.map_map]
    rfl
  argRings := h.argRings.reset hrules
  sourceMemo := rfl
  sourceMemoCap := h.sourceMemoCap.symm
  entries := by rw [(grown_new rules f).entries, h.reset.entries]
  transitions := by simp [sessionNew, sessionReset, List.map_const', h.transitions]
  eventCap := h.eventCap.symm

/-- After a reset, a session answers every sequence of ticks as a new one with its settings does. -/
theorem reset_outputs (nan : D) (rules : Rules D) (hrules : ∀ src ∈ rules.sources, src.Fresh) (seeded : Frame D)
    (moves : List (Move D)) (turns : List (Turn D)) :
    outputs nan rules (sessionReset (moves.foldl (Move.apply nan rules) (sessionNew rules seeded))) turns =
      outputs nan rules (sessionNew rules (moves.foldl Move.settle seeded)) turns :=
  ((((grown_new rules seeded).moves nan moves).twin hrules).outputs nan turns).symm

/-- The expression `well(1)[1]` over a pull source. -/
def wellRules : Rules Int where
  exprs := [("e", "well(1)[1]")]
  evalOrder := [0]
  watches := []
  sources := [{ name := "well", pull := true, hydrateBare := true, ring := some ⟨[0, 0], 0, 0⟩ }]
  tracked := []
  watch_known := by decide
  order_complete := by decide

def wellTurn (v : Int) : Turn Int where
  settings := [.param "scale" (.number v)]
  index := none
  host := ⟨fun _ args => v + args.sum, fun _ => .column []⟩
  evaluate := fun _ _ _ _ cachedStructs evalMemo =>
    .call "well" [1] 1 fun v => .done (.ok (.number (v.getD 0))) cachedStructs evalMemo

theorem reset_outputs_well :
    (∀ src ∈ wellRules.sources, src.Fresh) ∧
      outputs (-1) wellRules
          (sessionReset ([.turn (wellTurn 3), .turn (wellTurn 4)].foldl (Move.apply (-1) wellRules) (sessionNew wellRules {})))
          [wellTurn 5, wellTurn 6] =
        outputs (-1) wellRules
          (sessionNew wellRules ([.turn (wellTurn 3), .turn (wellTurn 4)].foldl Move.settle {})) [wellTurn 5, wellTurn 6] := by
  have hfresh : ∀ src ∈ wellRules.sources, src.Fresh := by
    intro src hsrc r hr
    obtain rfl := List.mem_singleton.mp hsrc
    cases hr
    decide
  exact ⟨hfresh, reset_outputs (-1) wellRules hfresh {} _ _⟩

-- the samples of the ticks before the reset are not seen
example : (outputs (-1) wellRules (sessionReset ([.turn (wellTurn 3), .turn (wellTurn 4)].foldl (Move.apply (-1) wellRules)
    (sessionNew wellRules {}))) [wellTurn 5, wellTurn 6]).map (fun o => o.2 "e") = [some (.number (-1)), some (.number 6)] := rfl

end Cxpr.Engine
