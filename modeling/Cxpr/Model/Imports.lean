import Mathlib.Data.Set.Finite.Basic
import Mathlib.Logic.Relation
import Cxpr.Value

/-! Import bundles (`src/model/imports.c`): the modules that a root model uses, loaded depth first and compiled one after
    another. The text of a module without outputs is spliced into the modules that use it. Parsing and compiling one
    module are given, and so is the host's loader. -/

namespace Cxpr.Imports

/-- What the builder does with a model: `cxpr_model_parse`, the accessors and `cxpr_model_compile_with_imports`. A `use`
    has a path and possibly an alias. -/
structure Compiler (M P : Type) where
  parse : String → Except Error M
  uses : M → List (String × Option String)
  name : M → Option String
  outputCount : M → Nat
  compile : M → List (String × P) → Except Error P

/-- `cxpr_model_import_load_fn`: the canonical id and the source for an importer and a use path. An error may be left
    unset. -/
abbrev Loader := String → String → Except (Option Error) (Option String × Option String)

structure ImportNode (M P : Type) where
  id : String
  namespaceName : String
  source : String
  model : M
  program : P
  functionOnly : Bool

/-- Why a build stops. `unfinished` is the bound on the nesting of imports, which the C stack has too. -/
inductive Failure where
  | load (e : Option Error)
  | incomplete
  | circular
  | parse (e : Error)
  | compile (e : Error)
  | duplicateNamespace
  | unfinished
  deriving DecidableEq

def Failure.error : Failure → Error
  | .load e => e.getD ⟨.syntaxError, "Failed to load model import"⟩
  | .incomplete => ⟨.syntaxError, "Model import loader returned an incomplete result"⟩
  | .circular => ⟨.circularDependency, "Circular model import dependency"⟩
  | .parse e => e
  | .compile e => e
  | .duplicateNamespace => ⟨.syntaxError, "Duplicate model import namespace"⟩
  | .unfinished => ⟨.stackOverflow, "Too many nested calls"⟩

def failWith {ε α : Type} (f : ε → Failure) : Except ε α → Except Failure α
  | .ok a => .ok a
  | .error e => .error (f e)

def prependSource (first source : String) : String := first ++ "\n" ++ source

variable {M P : Type}

def makeCompilableSource (c : Compiler M P) (source : String) (model : M) : String :=
  (if (c.name model).isSome then "" else "model __cxpr_import\n") ++ source ++
    (if c.outputCount model = 0 then "\nout __cxpr_import_dummy = 0\n" else "")

structure Gathered (M P : Type) where
  combined : Option String
  direct : List (String × P)
  nodes : List (ImportNode M P)

def gather (compileUse : String → List (ImportNode M P) → Except Failure (Option (ImportNode M P) × List (ImportNode M P)))
    (source : String) (g : Gathered M P) (use : String × Option String) : Except Failure (Gathered M P) := do
  let (child, nodes) ← compileUse use.1 g.nodes
  match child with
  | none => return { g with nodes }
  | some child =>
    if child.functionOnly then
      return { g with nodes, combined := some (prependSource child.source (g.combined.getD source)) }
    else return { g with nodes, direct := g.direct ++ [(use.2.getD use.1, child.program)] }

def parseCombined (c : Compiler M P) (combined : Option String) (first : M) : Except Failure M :=
  match combined with
  | some text => failWith .parse (c.parse text)
  | none => .ok first

def parseCompilable (c : Compiler M P) (compilable source : String) (model : M) : Except Failure M :=
  if compilable = source then .ok model else failWith .parse (c.parse compilable)

def nodeNamespace (c : Compiler M P) (model : M) (usePath : String) : String :=
  match c.name model with
  | some name => if name ≠ "__cxpr_import" then name else usePath
  | none => usePath

/-- The end of `import_compile`. The names of `direct` point into the first parse of the module, which is freed when its
    text is parsed again: `freed` is what they read as then. -/
def finish (c : Compiler M P) (freed : String → Nat → String) (id usePath source : String) (first : M) (g : Gathered M P) :
    Except Failure (ImportNode M P) := do
  let text := g.combined.getD source
  let second ← parseCombined c g.combined first
  let compilable := makeCompilableSource c text second
  let model ← parseCompilable c compilable source second
  let direct := if compilable = source then g.direct else g.direct.mapIdx fun i use => (freed id i, use.2)
  let program ← failWith .compile (c.compile model direct)
  if g.nodes.any fun other => other.namespaceName == nodeNamespace c model usePath && other.id != id then
    throw .duplicateNamespace
  else
    return ⟨id, nodeNamespace c model usePath, text, model, program, c.outputCount first == 0⟩

/-- `import_compile`: the node of a use, or none for a use that the host keeps, and the bundle afterwards. -/
def importCompile (c : Compiler M P) (load : Loader) (freed : String → Nat → String) :
    Nat → List String → String → String → List (ImportNode M P) →
      Except Failure (Option (ImportNode M P) × List (ImportNode M P))
  | 0, _, _, _, _ => .error .unfinished
  | fuel + 1, stack, importer, usePath, nodes =>
    match load importer usePath with
    | .error e => .error (.load e)
    | .ok (none, none) => .ok (none, nodes)
    | .ok (some id, some source) =>
      match nodes.find? (·.id == id) with
      | some node => .ok (some node, nodes)
      | none =>
        if id ∈ stack then .error .circular
        else do
          let first ← failWith .parse (c.parse source)
          let g ← (c.uses first).foldlM
            (gather (importCompile c load freed fuel (stack ++ [id]) id) source) ⟨none, [], nodes⟩
          let node ← finish c freed id usePath source first g
          return (some node, g.nodes ++ [node])
    | .ok _ => .error .incomplete

/-- `cxpr_model_import_bundle_build`: the bundle and the imports of the root. -/
def build (c : Compiler M P) (load : Loader) (freed : String → Nat → String) (fuel : Nat) (rootId : String) (root : M) :
    Except Failure (List (ImportNode M P) × List (String × P)) :=
  (c.uses root).foldlM
    (fun (nodes, imports) use => do
      let (node, nodes) ← importCompile c load freed fuel [] rootId use.1 nodes
      match node with
      | none => return (nodes, imports)
      | some node => return (nodes, imports ++ [(node.namespaceName, node.program)]))
    ([], [])

def Canonical (load : Loader) (text : String → String) : Prop :=
  ∀ importer path id source, load importer path = .ok (some id, some source) → source = text id

def Resolves (load : Loader) (importer path id : String) : Prop :=
  ∃ source, load importer path = .ok (some id, some source)

section
variable (c : Compiler M P) (load : Loader) (text : String → String)

def Uses (a b : String) : Prop :=
  ∃ m, c.parse (text a) = .ok m ∧ ∃ use ∈ c.uses m, Resolves load a use.1 b

def Reachable (rootId : String) (root : M) (b : String) : Prop :=
  ∃ a, (∃ use ∈ c.uses root, Resolves load rootId use.1 a) ∧ Relation.ReflTransGen (Uses c load text) a b

def Cyclic (rootId : String) (root : M) : Prop :=
  ∃ a, Reachable c load text rootId root a ∧ Relation.TransGen (Uses c load text) a a

end

/-! ### What a node is made of -/

section
variable (load : Loader) (nodes : List (ImportNode M P)) (importer : String)

def nodeOf (path : String) : Option (ImportNode M P) :=
  match load importer path with
  | .ok (some id, some _) => nodes.find? (·.id == id)
  | _ => none

def splice (source : String) (combined : Option String) (use : String × Option String) : Option String :=
  match nodeOf load nodes importer use.1 with
  | some child =>
    if child.functionOnly then some (prependSource child.source (combined.getD source)) else combined
  | none => combined

/-- The text in front of which the texts of the used modules without outputs stand. -/
def spliced (source : String) (uses : List (String × Option String)) : Option String :=
  uses.foldl (splice load nodes importer source) none

/-- The import of a use of a module with outputs: its program under the alias, or else under the path. -/
def directImport (use : String × Option String) : Option (String × P) :=
  match nodeOf load nodes importer use.1 with
  | some child => if child.functionOnly then none else some (use.2.getD use.1, child.program)
  | none => none

def Settled (path : String) : Prop :=
  ∀ id, Resolves load importer path id → ∃ child ∈ nodes, child.id = id

end

section
variable {load : Loader} {nodes nodes' : List (ImportNode M P)} {importer : String}

theorem find_of_prefix (hgrow : nodes <+: nodes') {id : String} {node : ImportNode M P}
    (h : nodes.find? (·.id == id) = some node) : nodes'.find? (·.id == id) = some node := by
  obtain ⟨rest, rfl⟩ := hgrow
  rw [List.find?_append, h]
  rfl

theorem exists_find {id : String} (h : ∃ child ∈ nodes, child.id = id) :
    ∃ child, nodes.find? (·.id == id) = some child := by
  obtain ⟨child, hmem, rfl⟩ := h
  cases hfind : nodes.find? (·.id == child.id) with
  | some found => exact ⟨found, rfl⟩
  | none =>
    have hnone := List.find?_eq_none.mp hfind child hmem
    simp at hnone

theorem Settled.mono {path : String} (h : Settled load nodes importer path) (hgrow : nodes <+: nodes') :
    Settled load nodes' importer path := by
  intro id hid
  obtain ⟨child, hmem, hchild⟩ := h id hid
  exact ⟨child, hgrow.subset hmem, hchild⟩

theorem Settled.nodeOf_eq {path : String} (h : Settled load nodes importer path) (hgrow : nodes <+: nodes') :
    nodeOf load nodes' importer path = nodeOf load nodes importer path := by
  unfold nodeOf
  split
  · rename_i id source hload
    obtain ⟨child, hchild⟩ := exists_find (h id ⟨source, hload⟩)
    rw [hchild, find_of_prefix hgrow hchild]
  · rfl

theorem spliced_congr {source : String} {uses : List (String × Option String)} (hgrow : nodes <+: nodes')
    (h : ∀ use ∈ uses, Settled load nodes importer use.1) :
    spliced load nodes' importer source uses = spliced load nodes importer source uses := by
  unfold spliced
  refine List.foldl_ext _ _ _ fun combined use huse => ?_
  unfold splice
  rw [(h use huse).nodeOf_eq hgrow]

theorem directImports_congr {uses : List (String × Option String)} (hgrow : nodes <+: nodes')
    (h : ∀ use ∈ uses, Settled load nodes importer use.1) :
    uses.filterMap (directImport load nodes' importer) = uses.filterMap (directImport load nodes importer) := by
  refine List.filterMap_congr fun use huse => ?_
  unfold directImport
  rw [(h use huse).nodeOf_eq hgrow]

end

def Ends {ε α : Type} (E : ε → Prop) (Q : α → Prop) : Except ε α → Prop
  | .ok a => Q a
  | .error e => E e

namespace Ends
variable {ε α β : Type} {E : ε → Prop}

variable {x : Except ε α}

theorem bind {Q : α → Prop} {R : β → Prop} {k : α → Except ε β} (h : Ends E Q x)
    (hk : ∀ a, Q a → Ends E R (k a)) : Ends E R (x >>= k) := by
  cases x with
  | error e => exact h
  | ok a => exact hk a h

theorem mono {Q R : α → Prop} (h : Ends E Q x) (hQ : ∀ a, Q a → R a) : Ends E R x := by
  cases x with
  | error e => exact h
  | ok a => exact hQ a h

theorem foldlM {f : β → α → Except ε β} {l : List α} {Inv : List α → β → Prop}
    (hstep : ∀ done a b, a ∈ l → Inv done b → Ends E (Inv (done ++ [a])) (f b a)) {b : β} (hb : Inv [] b) :
    Ends E (Inv l) (l.foldlM f b) := by
  have hall : ∀ (rest done : List α) (b : β), (∀ a ∈ rest, a ∈ l) → Inv done b →
      Ends E (Inv (done ++ rest)) (rest.foldlM f b) := by
    intro rest
    induction rest with
    | nil =>
      intro done b _ hinv
      rw [List.append_nil]
      exact hinv
    | cons a rest ih =>
      intro done b hmem hinv
      rw [List.foldlM_cons]
      refine (hstep done a b (hmem a (by simp)) hinv).bind fun b' hb' => ?_
      have happend : done ++ a :: rest = done ++ [a] ++ rest := by simp
      rw [happend]
      exact ih (done ++ [a]) b' (fun x hx => hmem x (by simp [hx])) hb'
  exact hall l [] b (fun a ha => ha) hb

theorem failWith {f : ε → Failure} {E : Failure → Prop} (hE : ∀ e, E (f e)) :
    Ends E (fun a => x = .ok a) (Imports.failWith f x) := by
  cases x with
  | error e => exact hE e
  | ok a => exact rfl

end Ends

/-! ### Bundles -/

section
variable (c : Compiler M P) (load : Loader) (text : String → String)

structure BuiltFrom (before : List (ImportNode M P)) (node : ImportNode M P) (first : M) : Prop where
  parsed : c.parse (text node.id) = .ok first
  functionOnly : node.functionOnly = (c.outputCount first == 0)
  settled : ∀ use ∈ c.uses first, Settled load before node.id use.1
  source : node.source = (spliced load before node.id (text node.id) (c.uses first)).getD (text node.id)
  compiled : ∃ front back, c.parse (front ++ node.source ++ back) = .ok node.model
  program : ∃ imports : List (String × P), c.compile node.model imports = .ok node.program ∧
    imports.map Prod.snd = ((c.uses first).filterMap (directImport load before node.id)).map Prod.snd ∧
    (spliced load before node.id (text node.id) (c.uses first) = none → (c.name first).isSome → c.outputCount first ≠ 0 →
      node.model = first ∧ imports = (c.uses first).filterMap (directImport load before node.id))

inductive Bundle (rootId : String) (root : M) : List (ImportNode M P) → Prop
  | nil : Bundle rootId root []
  | snoc {nodes : List (ImportNode M P)} {node : ImportNode M P} {first : M} (h : Bundle rootId root nodes)
      (fresh : ∀ other ∈ nodes, other.id ≠ node.id) (reachable : Reachable c load text rootId root node.id)
      (built : BuiltFrom c load text nodes node first) : Bundle rootId root (nodes ++ [node])

def Allowed (rootId : String) (root : M) (short : Prop) : Failure → Prop
  | .circular => Cyclic c load text rootId root
  | .unfinished => short
  | _ => True

end

section
variable {c : Compiler M P} {load : Loader} {text : String → String} {rootId : String} {root : M}

structure Gathers (c : Compiler M P) (load : Loader) (text : String → String) (rootId : String) (root : M)
    (importer source : String) (start : List (ImportNode M P)) (stack : List String)
    (done : List (String × Option String)) (g : Gathered M P) : Prop where
  bundle : Bundle c load text rootId root g.nodes
  grows : start <+: g.nodes
  disjoint : ∀ s ∈ stack, ∀ n ∈ g.nodes, n.id ≠ s
  settled : ∀ use ∈ done, Settled load g.nodes importer use.1
  combined : g.combined = spliced load g.nodes importer source done
  direct : g.direct = done.filterMap (directImport load g.nodes importer)

structure Imported (c : Compiler M P) (load : Loader) (text : String → String) (rootId : String) (root : M)
    (importer path : String) (start : List (ImportNode M P)) (stack : List String)
    (r : Option (ImportNode M P) × List (ImportNode M P)) : Prop where
  bundle : Bundle c load text rootId root r.2
  grows : start <+: r.2
  disjoint : ∀ s ∈ stack, ∀ n ∈ r.2, n.id ≠ s
  settled : Settled load r.2 importer path
  node : r.1 = nodeOf load r.2 importer path

theorem gather_gathers {E : Failure → Prop} {importer source : String} {start : List (ImportNode M P)} {stack : List String}
    {done : List (String × Option String)} {g : Gathered M P} {use : String × Option String}
    {compileUse : String → List (ImportNode M P) → Except Failure (Option (ImportNode M P) × List (ImportNode M P))}
    (hg : Gathers c load text rootId root importer source start stack done g)
    (huse : Ends E (Imported c load text rootId root importer use.1 g.nodes stack) (compileUse use.1 g.nodes)) :
    Ends E (Gathers c load text rootId root importer source start stack (done ++ [use])) (gather compileUse source g use) := by
  refine huse.bind fun r hr => ?_
  obtain ⟨child, nodes⟩ := r
  have hsettled : ∀ u ∈ done ++ [use], Settled load nodes importer u.1 := by
    intro u hu
    rcases List.mem_append.mp hu with hold | hnew
    · exact (hg.settled u hold).mono hr.grows
    · obtain rfl := List.mem_singleton.mp hnew
      exact hr.settled
  have hcombined : spliced load nodes importer source (done ++ [use]) =
      splice load nodes importer source g.combined use := by
    rw [spliced, List.foldl_append, ← spliced, spliced_congr hr.grows hg.settled, hg.combined]
    rfl
  have hdirect : (done ++ [use]).filterMap (directImport load nodes importer) =
      g.direct ++ (directImport load nodes importer use).toList := by
    rw [List.filterMap_append, directImports_congr hr.grows hg.settled, hg.direct]
    cases hone : directImport load nodes importer use <;> simp [hone]
  have hgrows : start <+: nodes := hg.grows.trans hr.grows
  have hnode : nodeOf load nodes importer use.1 = child := hr.node.symm
  cases child with
  | none =>
    have hone : directImport load nodes importer use = none := by rw [directImport, hnode]
    rw [splice, hnode] at hcombined
    rw [hone] at hdirect
    exact ⟨hr.bundle, hgrows, hr.disjoint, hsettled, hcombined.symm, by simpa using hdirect.symm⟩
  | some child =>
    rw [splice, hnode] at hcombined
    dsimp only at hcombined ⊢
    cases hkind : child.functionOnly with
    | true =>
      have hone : directImport load nodes importer use = none := by simp [directImport, hnode, hkind]
      rw [hkind] at hcombined
      rw [hone] at hdirect
      exact ⟨hr.bundle, hgrows, hr.disjoint, hsettled, hcombined.symm, by simpa using hdirect.symm⟩
    | false =>
      have hone : directImport load nodes importer use = some (use.2.getD use.1, child.program) := by
        simp [directImport, hnode, hkind]
      rw [hkind] at hcombined
      rw [hone] at hdirect
      exact ⟨hr.bundle, hgrows, hr.disjoint, hsettled, hcombined.symm, hdirect.symm⟩

theorem finish_built (freed : String → Nat → String) {short : Prop} {id usePath : String} {first : M}
    {start : List (ImportNode M P)} {stack : List String} {g : Gathered M P} (hfirst : c.parse (text id) = .ok first)
    (hg : Gathers c load text rootId root id (text id) start stack (c.uses first) g) :
    Ends (Allowed c load text rootId root short)
      (fun node => node.id = id ∧ BuiltFrom c load text g.nodes node first)
      (finish c freed id usePath (text id) first g) := by
  have hparse : ∀ e, Allowed c load text rootId root short (.parse e) := fun _ => trivial
  have hcompile : ∀ e, Allowed c load text rootId root short (.compile e) := fun _ => trivial
  have hsecond : Ends (Allowed c load text rootId root short)
      (fun m => c.parse (g.combined.getD (text id)) = .ok m ∧ (g.combined = none → m = first))
      (parseCombined c g.combined first) := by
    cases hcombined : g.combined with
    | none => exact ⟨hfirst, fun _ => rfl⟩
    | some combined =>
      refine (Ends.failWith hparse).mono fun m hm => ⟨hm, fun hnone => ?_⟩
      cases hnone
  have hlast : ∀ second, c.parse (g.combined.getD (text id)) = .ok second →
      Ends (Allowed c load text rootId root short)
        (fun m => (∃ front back, c.parse (front ++ g.combined.getD (text id) ++ back) = .ok m) ∧
          (makeCompilableSource c (g.combined.getD (text id)) second = text id → m = second))
        (parseCompilable c (makeCompilableSource c (g.combined.getD (text id)) second) (text id) second) := by
    intro second hsecond
    unfold parseCompilable
    split
    · exact ⟨⟨"", "", by simpa using hsecond⟩, fun _ => rfl⟩
    · rename_i hchanged
      refine (Ends.failWith hparse).mono fun m hm => ⟨⟨_, _, hm⟩, fun hsame => absurd hsame hchanged⟩
  unfold finish
  refine hsecond.bind fun second hsecond => (hlast second hsecond.1).bind fun model hmodel => ?_
  refine (Ends.failWith hcompile).bind fun program hprogram => ?_
  split
  · exact trivial
  refine ⟨rfl, hfirst, rfl, hg.settled, by rw [← hg.combined], hmodel.1, _, hprogram, ?_, ?_⟩
  · split
    · rw [hg.direct]
    · rw [← hg.direct]
      refine List.ext_getElem? fun i => ?_
      simp only [List.getElem?_map, List.getElem?_mapIdx, Option.map_map]
      rfl
  · intro hnone hname houtputs
    rw [← hg.combined] at hnone
    obtain rfl : second = first := hsecond.2 hnone
    have hsame : makeCompilableSource c (g.combined.getD (text id)) second = text id := by
      simp [makeCompilableSource, hnone, hname, houtputs]
    exact ⟨hmodel.2 hsame, by rw [if_pos hsame, hg.direct]⟩

section
variable {L : List String}

theorem length_le_of_reachable {stack : List String} (hL : ∀ b, Reachable c load text rootId root b → b ∈ L)
    (hnodup : stack.Nodup) (hstack : ∀ s ∈ stack, Reachable c load text rootId root s) : stack.length ≤ L.length :=
  (List.subperm_of_subset hnodup fun s hs => hL s (hstack s hs)).length_le

theorem importNew_imported (freed : String → Nat → String) {short : Prop} {stack : List String}
    {importer path id : String} {nodes : List (ImportNode M P)}
    {compileUse : String → List (ImportNode M P) → Except Failure (Option (ImportNode M P) × List (ImportNode M P))}
    (hload : load importer path = .ok (some id, some (text id))) (hnodes : Bundle c load text rootId root nodes)
    (hdisjoint : ∀ s ∈ stack, ∀ n ∈ nodes, n.id ≠ s) (hreach : Reachable c load text rootId root id)
    (hmem : id ∉ stack) (hnew : ∀ n ∈ nodes, n.id ≠ id)
    (huses : ∀ first, c.parse (text id) = .ok first → ∀ use ∈ c.uses first, ∀ nodes',
      Bundle c load text rootId root nodes' → (∀ s ∈ stack ++ [id], ∀ n ∈ nodes', n.id ≠ s) →
      Ends (Allowed c load text rootId root short) (Imported c load text rootId root id use.1 nodes' (stack ++ [id]))
        (compileUse use.1 nodes')) :
    Ends (Allowed c load text rootId root short) (Imported c load text rootId root importer path nodes stack) (do
      let first ← failWith .parse (c.parse (text id))
      let g ← (c.uses first).foldlM (gather compileUse (text id)) ⟨none, [], nodes⟩
      let node ← finish c freed id path (text id) first g
      return (some node, g.nodes ++ [node])) := by
  refine (Ends.failWith fun _ => trivial).bind fun first hfirst => ?_
  have hstart : Gathers c load text rootId root id (text id) nodes (stack ++ [id]) [] ⟨none, [], nodes⟩ := by
    refine ⟨hnodes, List.prefix_refl _, ?_, fun use huse => absurd huse (by simp), rfl, rfl⟩
    intro s hs n hn
    rcases List.mem_append.mp hs with hold | hlast
    · exact hdisjoint s hold n hn
    · obtain rfl := List.mem_singleton.mp hlast
      exact hnew n hn
  refine (Ends.foldlM (fun done use g huse hg =>
    gather_gathers hg (huses first hfirst use huse g.nodes hg.bundle hg.disjoint)) hstart).bind fun g hg => ?_
  refine (finish_built freed hfirst hg).bind fun node hnode => ?_
  obtain ⟨hnodeId, hbuilt⟩ := hnode
  have hothers : ∀ other ∈ g.nodes, other.id ≠ id := hg.disjoint id (by simp)
  refine ⟨.snoc hg.bundle (by rw [hnodeId]; exact hothers) (by rw [hnodeId]; exact hreach) hbuilt,
    hg.grows.trans (List.prefix_append _ _), ?_, ?_, ?_⟩
  · intro s hs n hn
    rcases List.mem_append.mp hn with hold | hlast
    · exact hg.disjoint s (by simp [hs]) n hold
    · obtain rfl := List.mem_singleton.mp hlast
      exact fun heq => hmem (by rw [← hnodeId, heq]; exact hs)
  · rintro id' ⟨source', hid'⟩
    rw [hload] at hid'
    cases hid'
    exact ⟨node, by simp, hnodeId⟩
  · have hnone : g.nodes.find? (·.id == id) = none := by
      refine List.find?_eq_none.mpr fun n hn => ?_
      simpa using hothers n hn
    simp [nodeOf, hload, List.find?_append, hnone, hnodeId]

theorem importCompile_imported (freed : String → Nat → String) (htext : Canonical load text)
    (hL : ∀ b, Reachable c load text rootId root b → b ∈ L) (fuel : Nat) :
    ∀ (stack : List String) (importer path : String) (nodes : List (ImportNode M P)),
      Bundle c load text rootId root nodes → stack.Nodup → (∀ s ∈ stack, Reachable c load text rootId root s) →
      (∀ s ∈ stack, ∀ n ∈ nodes, n.id ≠ s) →
      (∀ b, Resolves load importer path b → Reachable c load text rootId root b ∧
        ∀ s ∈ stack, Relation.TransGen (Uses c load text) s b) →
      Ends (Allowed c load text rootId root (stack.length + fuel ≤ L.length))
        (Imported c load text rootId root importer path nodes stack)
        (importCompile c load freed fuel stack importer path nodes) := by
  induction fuel with
  | zero =>
    intro stack importer path nodes _ hnodup hstack _ _
    exact length_le_of_reachable hL hnodup hstack
  | succ fuel ih =>
    intro stack importer path nodes hnodes hnodup hstack hdisjoint hleads
    rw [importCompile]
    cases hload : load importer path with
    | error e => exact trivial
    | ok loaded =>
      rcases loaded with ⟨_ | id, _ | source⟩
      · -- a use that the host keeps
        refine ⟨hnodes, List.prefix_refl _, hdisjoint, ?_, ?_⟩
        · rintro id ⟨source, hid⟩
          rw [hload] at hid
          cases hid
        · simp [nodeOf, hload]
      · exact trivial
      · exact trivial
      · obtain ⟨hreach, hpaths⟩ := hleads id ⟨source, hload⟩
        obtain rfl : source = text id := htext importer path id source hload
        dsimp only
        cases hfind : nodes.find? (·.id == id) with
        | some node =>
          have hnode : node.id = id := by simpa using List.find?_some hfind
          refine ⟨hnodes, List.prefix_refl _, hdisjoint, ?_, ?_⟩
          · rintro id' ⟨source', hid'⟩
            rw [hload] at hid'
            cases hid'
            exact ⟨node, List.mem_of_find?_eq_some hfind, hnode⟩
          · simp [nodeOf, hload, hfind]
        | none =>
          have hnew : ∀ n ∈ nodes, n.id ≠ id := by
            intro n hn heq
            have hnone := List.find?_eq_none.mp hfind n hn
            simp [heq] at hnone
          have hbound : stack.length + (fuel + 1) = (stack ++ [id]).length + fuel := by
            rw [List.length_append, List.length_singleton]
            omega
          dsimp only
          split
          · -- every module on the stack leads to the one on top
            rename_i hmem
            exact ⟨id, hreach, hpaths id hmem⟩
          · rename_i hmem
            rw [hbound]
            refine importNew_imported freed hload hnodes hdisjoint hreach hmem hnew ?_
            intro first hfirst use huse nodes' hnodes' hdisjoint'
            refine ih (stack ++ [id]) id use.1 nodes' hnodes' ?_ ?_ hdisjoint' ?_
            · refine List.nodup_append.mpr ⟨hnodup, by simp, ?_⟩
              rintro s hs t ht rfl
              exact hmem (by rw [← List.mem_singleton.mp ht]; exact hs)
            · intro s hs
              rcases List.mem_append.mp hs with hold | hlast
              · exact hstack s hold
              · obtain rfl := List.mem_singleton.mp hlast
                exact hreach
            · intro b hb
              have hedge : Uses c load text id b := ⟨first, hfirst, use, huse, hb⟩
              obtain ⟨a, ha, hpath⟩ := hreach
              refine ⟨⟨a, ha, hpath.tail hedge⟩, fun s hs => ?_⟩
              rcases List.mem_append.mp hs with hold | hlast
              · exact (hpaths s hold).tail hedge
              · obtain rfl := List.mem_singleton.mp hlast
                exact .single hedge

theorem build_ends (freed : String → Nat → String) (htext : Canonical load text)
    (hL : ∀ b, Reachable c load text rootId root b → b ∈ L) (fuel : Nat) :
    Ends (Allowed c load text rootId root (fuel ≤ L.length))
      (fun r => Bundle c load text rootId root r.1 ∧ ∀ use ∈ c.uses root, Settled load r.1 rootId use.1)
      (build c load freed fuel rootId root) := by
  have hstep : ∀ (done : List (String × Option String)) (use : String × Option String)
      (acc : List (ImportNode M P) × List (String × P)), use ∈ c.uses root →
      (Bundle c load text rootId root acc.1 ∧ ∀ use ∈ done, Settled load acc.1 rootId use.1) →
      Ends (Allowed c load text rootId root (fuel ≤ L.length))
        (fun r => Bundle c load text rootId root r.1 ∧ ∀ use' ∈ done ++ [use], Settled load r.1 rootId use'.1)
        (do
          let (node, nodes) ← importCompile c load freed fuel [] rootId use.1 acc.1
          match node with
          | none => return (nodes, acc.2)
          | some node => return (nodes, acc.2 ++ [(node.namespaceName, node.program)])) := by
    intro done use acc huse hacc
    have hone := importCompile_imported freed htext hL fuel [] rootId use.1 acc.1 hacc.1 List.nodup_nil (by simp)
      (by simp) fun b hb => ⟨⟨b, ⟨use, huse, hb⟩, .refl⟩, by simp⟩
    rw [List.length_nil, Nat.zero_add] at hone
    refine hone.bind fun r hr => ?_
    have hsettled : ∀ use' ∈ done ++ [use], Settled load r.2 rootId use'.1 := by
      intro use' huse'
      rcases List.mem_append.mp huse' with hold | hnew
      · exact (hacc.2 use' hold).mono hr.grows
      · obtain rfl := List.mem_singleton.mp hnew
        exact hr.settled
    obtain ⟨node, nodes⟩ := r
    cases node with
    | none => exact ⟨hr.bundle, hsettled⟩
    | some node => exact ⟨hr.bundle, hsettled⟩
  exact Ends.foldlM hstep ⟨.nil, by simp⟩

end

variable {nodes before after : List (ImportNode M P)} {node : ImportNode M P} {b : String}

theorem Bundle.split
    (h : Bundle c load text rootId root nodes) (hsplit : nodes = before ++ node :: after) :
    Bundle c load text rootId root before ∧ (∀ other ∈ before, other.id ≠ node.id) ∧
      Reachable c load text rootId root node.id ∧ ∃ first, BuiltFrom c load text before node first := by
  induction h generalizing after with
  | nil => simp at hsplit
  | @snoc nodes last first hnodes fresh reachable built ih =>
    rcases after.eq_nil_or_concat' with rfl | ⟨init, last', rfl⟩
    · obtain ⟨rfl, hlast⟩ := List.append_inj' hsplit rfl
      cases hlast
      exact ⟨hnodes, fresh, reachable, first, built⟩
    · have hsplit : nodes ++ [last] = (before ++ node :: init) ++ [last'] := by simpa using hsplit
      obtain ⟨hinit, -⟩ := List.append_inj' hsplit rfl
      exact ih hinit

theorem Bundle.nodup (h : Bundle c load text rootId root nodes) :
    (nodes.map (·.id)).Nodup := by
  induction h with
  | nil => exact List.nodup_nil
  | snoc hnodes fresh reachable built ih =>
    rw [List.map_append]
    refine List.nodup_append.mpr ⟨ih, by simp, ?_⟩
    intro a ha b hb heq
    obtain ⟨other, hother, rfl⟩ := List.mem_map.mp ha
    exact fresh other hother (heq.trans (List.mem_singleton.mp hb))

theorem BuiltFrom.uses {first : M}
    (h : BuiltFrom c load text before node first) (huses : Uses c load text node.id b) :
    ∃ child ∈ before, child.id = b := by
  obtain ⟨m, hm, use, huse, hb⟩ := huses
  rw [h.parsed] at hm
  cases hm
  exact h.settled use huse b hb

theorem Bundle.transGen_before
    (h : Bundle c load text rootId root nodes) (hsplit : nodes = before ++ node :: after)
    (hpath : Relation.TransGen (Uses c load text) node.id b) : ∃ child ∈ before, child.id = b := by
  induction hpath with
  | single huses =>
    obtain ⟨-, -, -, first, hbuilt⟩ := h.split hsplit
    exact hbuilt.uses huses
  | tail hpath huses ih =>
    obtain ⟨child, hchild, rfl⟩ := ih
    obtain ⟨front, back, rfl⟩ := List.append_of_mem hchild
    have hsplit' : nodes = front ++ child :: (back ++ node :: after) := by simpa using hsplit
    obtain ⟨-, -, -, first, hbuilt⟩ := h.split hsplit'
    obtain ⟨target, htarget, hid⟩ := hbuilt.uses huses
    exact ⟨target, List.mem_append_left _ htarget, hid⟩

theorem Bundle.not_transGen_self
    (h : Bundle c load text rootId root nodes) (hmem : node ∈ nodes) :
    ¬Relation.TransGen (Uses c load text) node.id node.id := by
  intro hpath
  obtain ⟨before, after, hsplit⟩ := List.append_of_mem hmem
  obtain ⟨child, hchild, hid⟩ := h.transGen_before hsplit hpath
  exact (h.split hsplit).2.1 child hchild hid

theorem Bundle.complete (h : Bundle c load text rootId root nodes)
    (hroot : ∀ use ∈ c.uses root, Settled load nodes rootId use.1)
    (hb : Reachable c load text rootId root b) : ∃ node ∈ nodes, node.id = b := by
  obtain ⟨a, ⟨use, huse, ha⟩, hpath⟩ := hb
  induction hpath with
  | refl => exact hroot use huse a ha
  | tail hpath huses ih =>
    obtain ⟨node, hnode, rfl⟩ := ih
    obtain ⟨before, after, rfl⟩ := List.append_of_mem hnode
    obtain ⟨-, -, -, first, hbuilt⟩ := h.split rfl
    obtain ⟨child, hchild, hid⟩ := hbuilt.uses huses
    exact ⟨child, List.mem_append_left _ hchild, hid⟩

/-! ### Spliced texts -/

section
variable {nodes : List (ImportNode M P)} {importer source : String}

def Contains (text part : String) : Prop := ∃ front back, text = front ++ part ++ back

theorem Contains.refl (text : String) : Contains text text := ⟨"", "", by simp⟩

theorem Contains.trans {a b c : String} (hab : Contains a b) (hbc : Contains b c) : Contains a c := by
  obtain ⟨front, back, rfl⟩ := hab
  obtain ⟨front', back', rfl⟩ := hbc
  exact ⟨front ++ front', back' ++ back, by simp [String.append_assoc]⟩

theorem contains_prependSource (first source : String) :
    Contains (prependSource first source) first ∧ Contains (prependSource first source) source :=
  ⟨⟨"", "\n" ++ source, by simp [prependSource, String.append_assoc]⟩, ⟨first ++ "\n", "", by simp [prependSource]⟩⟩

theorem contains_splice (combined : Option String) (use : String × Option String) {part : String}
    (h : Contains (combined.getD source) part) :
    Contains ((splice load nodes importer source combined use).getD source) part := by
  unfold splice
  split
  · split
    · exact (contains_prependSource _ _).2.trans h
    · exact h
  · exact h

theorem contains_foldl_splice (uses : List (String × Option String)) (combined : Option String) {part : String}
    (h : Contains (combined.getD source) part) :
    Contains ((uses.foldl (splice load nodes importer source) combined).getD source) part := by
  induction uses generalizing combined with
  | nil => exact h
  | cons use uses ih => exact ih _ (contains_splice combined use h)

theorem contains_spliced_source (uses : List (String × Option String)) :
    Contains ((spliced load nodes importer source uses).getD source) source :=
  contains_foldl_splice uses none (.refl source)

theorem contains_spliced_child {uses : List (String × Option String)} {use : String × Option String}
    {child : ImportNode M P} (huse : use ∈ uses) (hnode : nodeOf load nodes importer use.1 = some child)
    (hkind : child.functionOnly = true) :
    Contains ((spliced load nodes importer source uses).getD source) child.source := by
  obtain ⟨front, back, rfl⟩ := List.append_of_mem huse
  unfold spliced
  rw [List.foldl_append, List.foldl_cons]
  refine contains_foldl_splice back _ ?_
  rw [splice, hnode]
  simp only [hkind, if_true, Option.getD_some]
  exact (contains_prependSource _ _).1

end

def SplicedInto (c : Compiler M P) (load : Loader) (text : String → String) (nodes : List (ImportNode M P))
    (a b : String) : Prop :=
  Uses c load text a b ∧ ∃ child ∈ nodes, child.id = b ∧ child.functionOnly = true

theorem Bundle.find_eq (h : Bundle c load text rootId root nodes)
    (hmem : node ∈ nodes) : nodes.find? (·.id == node.id) = some node := by
  obtain ⟨before, after, rfl⟩ := List.append_of_mem hmem
  have hnone : before.find? (·.id == node.id) = none := by
    refine List.find?_eq_none.mpr fun other hother => ?_
    simpa using (h.split rfl).2.1 other hother
  rw [List.find?_append, hnone, List.find?_cons_of_pos (by simp)]
  rfl

theorem Bundle.contains_child
    (h : Bundle c load text rootId root nodes) (hsplit : nodes = before ++ node :: after)
    (hinto : SplicedInto c load text nodes node.id b) :
    ∃ child ∈ before, child.id = b ∧ Contains node.source child.source := by
  obtain ⟨⟨m, hm, use, huse, source, hload⟩, child, hchild, hid, hkind⟩ := hinto
  obtain ⟨hbefore, -, -, first, hbuilt⟩ := h.split hsplit
  rw [hbuilt.parsed] at hm
  cases hm
  obtain ⟨child', hchild', hid'⟩ := hbuilt.settled use huse b ⟨source, hload⟩
  -- the node of the use is the one of the bundle
  have hsame : child' = child := by
    have hmem' : child' ∈ nodes := by
      rw [hsplit]
      exact List.mem_append_left _ hchild'
    have hfind := h.find_eq hchild
    have hfind' := h.find_eq hmem'
    rw [hid', ← hid, hfind] at hfind'
    exact (Option.some.inj hfind').symm
  subst hsame
  have hnode : nodeOf load before node.id use.1 = some child' := by
    have hfind := hbefore.find_eq hchild'
    rw [hid'] at hfind
    simp only [nodeOf, hload, hfind]
  refine ⟨child', hchild', hid', ?_⟩
  rw [hbuilt.source]
  exact contains_spliced_child huse hnode hkind

theorem Bundle.contains
    (h : Bundle c load text rootId root nodes) (hsplit : nodes = before ++ node :: after)
    (hpath : Relation.TransGen (SplicedInto c load text nodes) node.id b) : Contains node.source (text b) := by
  have hreach : ∃ child ∈ nodes, child.id = b ∧ Contains node.source child.source := by
    induction hpath with
    | single hinto =>
      obtain ⟨child, hchild, hid, hcontains⟩ := h.contains_child hsplit hinto
      exact ⟨child, by rw [hsplit]; exact List.mem_append_left _ hchild, hid, hcontains⟩
    | tail hpath hinto ih =>
      obtain ⟨child, hchild, rfl, hcontains⟩ := ih
      obtain ⟨front, back, hsplit'⟩ := List.append_of_mem hchild
      obtain ⟨target, htarget, hid, hcontains'⟩ := h.contains_child hsplit' hinto
      exact ⟨target, by rw [hsplit']; exact List.mem_append_left _ htarget, hid, hcontains.trans hcontains'⟩
  obtain ⟨child, hchild, rfl, hcontains⟩ := hreach
  obtain ⟨front, back, hsplit'⟩ := List.append_of_mem hchild
  obtain ⟨-, -, -, first, hbuilt⟩ := h.split hsplit'
  refine hcontains.trans ?_
  rw [hbuilt.source]
  exact contains_spliced_source _

end

theorem foldlM_of_finished {α β : Type} {f f' : β → α → Except Failure β}
    (hstep : ∀ b a, f b a ≠ .error .unfinished → f' b a = f b a) (l : List α) (b : β)
    (h : l.foldlM f b ≠ .error .unfinished) : l.foldlM f' b = l.foldlM f b := by
  induction l generalizing b with
  | nil => rfl
  | cons a l ih =>
    rw [List.foldlM_cons] at h ⊢
    have ha : f b a ≠ .error .unfinished := by
      intro herror
      rw [herror] at h
      exact h rfl
    rw [List.foldlM_cons, hstep b a ha]
    cases hf : f b a with
    | error e => rfl
    | ok b' =>
      rw [hf] at h
      exact ih b' h

theorem gather_of_finished {source : String} {g : Gathered M P} {use : String × Option String}
    {f f' : String → List (ImportNode M P) → Except Failure (Option (ImportNode M P) × List (ImportNode M P))}
    (hstep : ∀ path nodes, f path nodes ≠ .error .unfinished → f' path nodes = f path nodes)
    (h : gather f source g use ≠ .error .unfinished) : gather f' source g use = gather f source g use := by
  have hone : f use.1 g.nodes ≠ .error .unfinished := by
    intro herror
    unfold gather at h
    rw [herror] at h
    exact h rfl
  unfold gather
  rw [hstep use.1 g.nodes hone]

theorem importCompile_succ (c : Compiler M P) (load : Loader) (freed : String → Nat → String) (fuel : Nat) :
    ∀ (stack : List String) (importer path : String) (nodes : List (ImportNode M P)),
      importCompile c load freed fuel stack importer path nodes ≠ .error .unfinished →
      importCompile c load freed (fuel + 1) stack importer path nodes =
        importCompile c load freed fuel stack importer path nodes := by
  induction fuel with
  | zero =>
    intro stack importer path nodes h
    exact absurd rfl h
  | succ fuel ih =>
    intro stack importer path nodes h
    rw [importCompile] at h ⊢
    rw [importCompile]
    cases hload : load importer path with
    | error e => rfl
    | ok loaded =>
      rw [hload] at h
      rcases loaded with ⟨_ | id, _ | source⟩
      · rfl
      · rfl
      · rfl
      · dsimp only at h ⊢
        cases hfind : nodes.find? (·.id == id) with
        | some node => rfl
        | none =>
          rw [hfind] at h
          dsimp only at h ⊢
          split
          · rfl
          · rename_i hmem
            rw [if_neg hmem] at h
            cases hparse : failWith .parse (c.parse source) with
            | error e => rfl
            | ok first =>
              rw [hparse] at h
              have hloop : (c.uses first).foldlM
                  (gather (importCompile c load freed fuel (stack ++ [id]) id) source) ⟨none, [], nodes⟩ ≠
                    .error .unfinished := by
                intro herror
                refine h ?_
                show ((c.uses first).foldlM
                  (gather (importCompile c load freed fuel (stack ++ [id]) id) source) ⟨none, [], nodes⟩ >>= _) = _
                rw [herror]
                rfl
              have hsame := foldlM_of_finished (fun g use hg => gather_of_finished
                (fun path nodes hpath => ih (stack ++ [id]) id path nodes hpath) hg) (c.uses first) ⟨none, [], nodes⟩ hloop
              exact congrArg (fun gathered : Except Failure (Gathered M P) => gathered >>= fun g =>
                finish c freed id path source first g >>= fun node => pure (some node, g.nodes ++ [node])) hsame

theorem build_of_finished (c : Compiler M P) (load : Loader) (freed : String → Nat → String) (rootId : String) (root : M)
    {fuel fuel' : Nat} (hle : fuel ≤ fuel') (h : build c load freed fuel rootId root ≠ .error .unfinished) :
    build c load freed fuel' rootId root = build c load freed fuel rootId root := by
  induction fuel', hle using Nat.le_induction with
  | base => rfl
  | succ fuel' hle ih =>
    rw [← ih]
    refine foldlM_of_finished (fun acc use hacc => ?_) (c.uses root) ([], []) (by rw [← ih] at h; exact h)
    have hone : importCompile c load freed fuel' [] rootId use.1 acc.1 ≠ .error .unfinished := by
      intro herror
      refine hacc ?_
      show (importCompile c load freed fuel' [] rootId use.1 acc.1 >>= _) = _
      rw [herror]
      rfl
    show (importCompile c load freed (fuel' + 1) [] rootId use.1 acc.1 >>= _) =
      (importCompile c load freed fuel' [] rootId use.1 acc.1 >>= _)
    rw [importCompile_succ c load freed fuel' [] rootId use.1 acc.1 hone]

def importLeafName (importName : String) : String :=
  match (importName.splitOn "/").getLast? with
  | some leaf => if leaf == "" then importName else leaf
  | none => importName

/-- `cxpr_model_import_namespace_name`: the namespace that a model gives an import. -/
def importNamespaceName (uses : List (String × Option String)) (importName : String) : String :=
  match uses.find? (·.1 == importName) with
  | some use => use.2.getD (importLeafName importName)
  | none => importName

theorem importNamespaceName_use {uses : List (String × Option String)} {use : String × Option String} (huse : use ∈ uses)
    (hpaths : (uses.map Prod.fst).Nodup) (haliases : ∀ u ∈ uses, ∀ name ∈ u.2, name ∉ uses.map Prod.fst) :
    importNamespaceName uses (use.2.getD use.1) = use.2.getD (importLeafName use.1) := by
  unfold importNamespaceName
  obtain ⟨path, aliased⟩ := use
  cases aliased with
  | some name =>
    have hnone : uses.find? (·.1 == name) = none := by
      refine List.find?_eq_none.mpr fun u hu heq => ?_
      refine haliases _ huse name rfl (List.mem_map.mpr ⟨u, hu, ?_⟩)
      simpa using heq
    rw [Option.getD_some, hnone]
    rfl
  | none =>
    have hfind : uses.find? (·.1 == path) = some (path, none) := by
      obtain ⟨front, back, rfl⟩ := List.append_of_mem huse
      have hnone : front.find? (·.1 == path) = none := by
        refine List.find?_eq_none.mpr fun u hu heq => ?_
        rw [List.map_append, List.map_cons] at hpaths
        have hdisjoint := List.disjoint_of_nodup_append hpaths
        refine hdisjoint (List.mem_map.mpr ⟨u, hu, rfl⟩) ?_
        simp [show u.1 = path by simpa using heq]
      rw [List.find?_append, hnone, List.find?_cons_of_pos (by simp)]
      rfl
    rw [Option.getD_none, hfind]

def referenceName (use : String × Option String) : String := use.2.getD (importLeafName use.1)

theorem namespaces_directImports (load : Loader) (nodes : List (ImportNode M P)) (importer : String)
    {uses : List (String × Option String)} (hpaths : (uses.map Prod.fst).Nodup)
    (haliases : ∀ u ∈ uses, ∀ name ∈ u.2, name ∉ uses.map Prod.fst) :
    (uses.filterMap (directImport load nodes importer)).map (fun i => (importNamespaceName uses i.1, i.2)) =
      uses.filterMap fun use => (directImport load nodes importer use).map fun i => (referenceName use, i.2) := by
  rw [List.map_filterMap]
  refine List.filterMap_congr fun use huse => ?_
  unfold directImport
  split
  · split
    · rfl
    · rw [Option.map_some, Option.map_some, importNamespaceName_use huse hpaths haliases]
      rfl
  · rfl

/-- A build ends, whatever the loader gives, if finitely many modules are reachable. It ends with a circular error only if
    a reachable module uses itself, and then it fails. A bundle has every reachable module once, after all that it uses,
    compiled against the programs of the modules with outputs that it uses, and from a text with the texts of the modules
    without outputs that it uses, also through one another. -/
theorem build_bundle (c : Compiler M P) (load : Loader) (text : String → String) (freed : String → Nat → String)
    (rootId : String) (root : M) (htext : Canonical load text)
    (hfinite : { b | Reachable c load text rootId root b }.Finite) :
    ∃ result, (∃ bound, ∀ fuel ≥ bound, build c load freed fuel rootId root = result) ∧ result ≠ .error .unfinished ∧
      (result = .error .circular → Cyclic c load text rootId root) ∧
      (Cyclic c load text rootId root → ∃ failure, result = .error failure) ∧
      ∀ nodes imports, result = .ok (nodes, imports) →
        (nodes.map (·.id)).Nodup ∧ (∀ b, (∃ node ∈ nodes, node.id = b) ↔ Reachable c load text rootId root b) ∧
        ∀ before node after, nodes = before ++ node :: after →
          (∀ b, Uses c load text node.id b → ∃ child ∈ before, child.id = b) ∧
          (∃ first, BuiltFrom c load text before node first ∧
            (((c.uses first).map Prod.fst).Nodup → (∀ u ∈ c.uses first, ∀ name ∈ u.2, name ∉ (c.uses first).map Prod.fst) →
              ((c.uses first).filterMap (directImport load before node.id)).map
                (fun i => (importNamespaceName (c.uses first) i.1, i.2)) =
              (c.uses first).filterMap fun use =>
                (directImport load before node.id use).map fun i => (referenceName use, i.2))) ∧
          ∀ b, Relation.TransGen (SplicedInto c load text nodes) node.id b → Contains node.source (text b) := by
  obtain ⟨L, hL⟩ : ∃ L : List String, ∀ b, Reachable c load text rootId root b → b ∈ L :=
    ⟨hfinite.toFinset.toList, fun b hb => by simpa using hb⟩
  have hends := build_ends freed htext hL (L.length + 1)
  have hfinished : build c load freed (L.length + 1) rootId root ≠ .error .unfinished := by
    intro hunfinished
    rw [hunfinished] at hends
    exact absurd hends (Nat.not_succ_le_self _)
  refine ⟨build c load freed (L.length + 1) rootId root,
    ⟨L.length + 1, fun fuel hfuel => build_of_finished c load freed rootId root hfuel hfinished⟩, hfinished, ?_, ?_, ?_⟩
  · intro hcircular
    rw [hcircular] at hends
    exact hends
  · rintro ⟨a, ha, hpath⟩
    cases hresult : build c load freed (L.length + 1) rootId root with
    | error failure => exact ⟨failure, rfl⟩
    | ok r =>
      rw [hresult] at hends
      obtain ⟨node, hnode, rfl⟩ := hends.1.complete hends.2 ha
      exact absurd hpath (hends.1.not_transGen_self hnode)
  · intro nodes imports hresult
    rw [hresult] at hends
    obtain ⟨hbundle, hroot⟩ := hends
    refine ⟨hbundle.nodup, fun b => ⟨?_, fun hb => hbundle.complete hroot hb⟩, ?_⟩
    · rintro ⟨node, hnode, rfl⟩
      obtain ⟨before, after, hsplit⟩ := List.append_of_mem hnode
      exact (hbundle.split hsplit).2.2.1
    · intro before node after hsplit
      obtain ⟨-, -, -, first, hbuilt⟩ := hbundle.split hsplit
      exact ⟨fun b hb => hbuilt.uses hb,
        ⟨first, hbuilt, fun hpaths haliases => namespaces_directImports load before node.id hpaths haliases⟩,
        fun b hb => hbundle.contains hsplit hb⟩

structure Sketch where
  name : Option String
  uses : List (String × Option String)
  outputs : Nat

/-- The modules of a host: two of one name, one that uses itself, one of functions, one that uses them and one that uses
    that. -/
def library : List (String × String) :=
  [("first", "model shared\nout value = 1\n"), ("second", "model shared\nout value = 2\n"),
    ("loop", "model loop\nuse loop\nout value = 3\n"), ("helpers", "fn twice(x) = x * 2\n"),
    ("a", "model a\nuse helpers\nout value = twice(1)\n"), ("b", "model b\nuse a\nout value = a.value\n")]

def sketches : List (String × Sketch) :=
  [("model shared\nout value = 1\n", ⟨some "shared", [], 1⟩), ("model shared\nout value = 2\n", ⟨some "shared", [], 1⟩),
    ("model loop\nuse loop\nout value = 3\n", ⟨some "loop", [("loop", none)], 1⟩),
    ("fn twice(x) = x * 2\n", ⟨none, [], 0⟩),
    ("model __cxpr_import\nfn twice(x) = x * 2\n\nout __cxpr_import_dummy = 0\n", ⟨some "__cxpr_import", [], 1⟩),
    ("model a\nuse helpers\nout value = twice(1)\n", ⟨some "a", [("helpers", none)], 1⟩),
    ("fn twice(x) = x * 2\n\nmodel a\nuse helpers\nout value = twice(1)\n", ⟨some "a", [("helpers", none)], 1⟩),
    ("model b\nuse a\nout value = a.value\n", ⟨some "b", [("a", none)], 1⟩)]

def libraryCompiler : Compiler Sketch (List String) where
  parse source :=
    match sketches.lookup source with
    | some sketch => .ok sketch
    | none => .error ⟨.syntaxError, "Expected expression"⟩
  uses := Sketch.uses
  name := Sketch.name
  outputCount := Sketch.outputs
  compile _ imports := .ok (imports.map Prod.fst)

def libraryLoad : Loader := fun _ path =>
  match library.lookup path with
  | some source => .ok (some path, some source)
  | none => .error none

def libraryText (id : String) : String := (library.lookup id).getD ""

theorem libraryLoad_eq_ok {importer path id source : String} (h : libraryLoad importer path = .ok (some id, some source)) :
    id = path ∧ library.lookup path = some source := by
  unfold libraryLoad at h
  cases hlookup : library.lookup path with
  | none =>
    rw [hlookup] at h
    cases h
  | some found =>
    rw [hlookup] at h
    cases h
    exact ⟨rfl, rfl⟩

theorem library_canonical : Canonical libraryLoad libraryText := by
  intro importer path id source h
  obtain ⟨rfl, hlookup⟩ := libraryLoad_eq_ok h
  rw [libraryText, hlookup]
  rfl

theorem library_finite (root : Sketch) :
    { b | Reachable libraryCompiler libraryLoad libraryText "root" root b }.Finite := by
  refine (library.map Prod.fst).toFinset.finite_toSet.subset ?_
  rintro b ⟨a, ⟨use, -, source, ha⟩, hpath⟩
  have hresolves : ∃ importer path source, libraryLoad importer path = .ok (some b, some source) := by
    rcases Relation.ReflTransGen.cases_tail hpath with rfl | ⟨d, -, m, -, use', -, source', hb⟩
    · exact ⟨_, _, source, ha⟩
    · exact ⟨_, _, source', hb⟩
  obtain ⟨importer, path, source', hb⟩ := hresolves
  obtain ⟨rfl, hlookup⟩ := libraryLoad_eq_ok hb
  have hmem : (b, source') ∈ library := by
    obtain ⟨front, back, hsplit, -⟩ := List.lookup_eq_some_iff.mp hlookup
    rw [hsplit]
    simp
  simpa using ⟨source', hmem⟩

/-- A library with functions: the module that uses them is compiled from its text behind theirs. -/
theorem library_build :
    (∃ nodes imports bound, (∀ fuel ≥ bound,
      build libraryCompiler libraryLoad (fun _ _ => "") fuel "root" ⟨some "root", [("a", none)], 1⟩ = .ok (nodes, imports)) ∧
      nodes.map (·.source) = ["fn twice(x) = x * 2\n",
        "fn twice(x) = x * 2\n\nmodel a\nuse helpers\nout value = twice(1)\n"]) ∧
    ¬Cyclic libraryCompiler libraryLoad libraryText "root" ⟨some "root", [("a", none)], 1⟩ := by
  obtain ⟨result, ⟨bound, hbound⟩, -, -, hcycle, -⟩ := build_bundle libraryCompiler libraryLoad libraryText (fun _ _ => "")
    "root" ⟨some "root", [("a", none)], 1⟩ library_canonical (library_finite _)
  have hrun : ∃ nodes imports,
      build libraryCompiler libraryLoad (fun _ _ => "") 3 "root" ⟨some "root", [("a", none)], 1⟩ = .ok (nodes, imports) ∧
      nodes.map (·.source) = ["fn twice(x) = x * 2\n",
        "fn twice(x) = x * 2\n\nmodel a\nuse helpers\nout value = twice(1)\n"] := ⟨_, _, rfl, rfl⟩
  obtain ⟨nodes, imports, hrun, hsources⟩ := hrun
  have hresult : result = .ok (nodes, imports) := by
    rw [← hbound (max bound 3) (le_max_left _ _), build_of_finished _ _ _ _ _ (le_max_right _ _) (by rw [hrun]; simp), hrun]
  refine ⟨⟨nodes, imports, bound, fun fuel hfuel => (hbound fuel hfuel).trans hresult, hsources⟩, fun hcyclic => ?_⟩
  obtain ⟨failure, hfailure⟩ := hcycle hcyclic
  rw [hresult] at hfailure
  cases hfailure

/-- Two modules of one name are an error before the third is found to use itself; and the functions of a module are in the
    text of a module with outputs that uses them, but not in the text of one that uses that one. -/
theorem duplicate_hides_cycle :
    (build libraryCompiler libraryLoad (fun _ _ => "") 3 "root"
        ⟨some "root", [("first", none), ("second", none), ("loop", none)], 1⟩ = .error .duplicateNamespace ∧
      Cyclic libraryCompiler libraryLoad libraryText "root"
        ⟨some "root", [("first", none), ("second", none), ("loop", none)], 1⟩) ∧
    (∃ nodes imports,
      build libraryCompiler libraryLoad (fun _ _ => "") 4 "root" ⟨some "root", [("b", none)], 1⟩ = .ok (nodes, imports) ∧
      nodes.map (fun node => (node.id, node.source)) = [("helpers", "fn twice(x) = x * 2\n"),
        ("a", "fn twice(x) = x * 2\n\nmodel a\nuse helpers\nout value = twice(1)\n"),
        ("b", "model b\nuse a\nout value = a.value\n")] ∧
      Relation.TransGen (Uses libraryCompiler libraryLoad libraryText) "b" "helpers") := by
  have hloop : Resolves libraryLoad "root" "loop" "loop" := ⟨_, rfl⟩
  have huses : Uses libraryCompiler libraryLoad libraryText "loop" "loop" :=
    ⟨⟨some "loop", [("loop", none)], 1⟩, rfl, ("loop", none), by simp [libraryCompiler], _, rfl⟩
  have hba : Uses libraryCompiler libraryLoad libraryText "b" "a" :=
    ⟨⟨some "b", [("a", none)], 1⟩, rfl, ("a", none), by simp [libraryCompiler], _, rfl⟩
  have hahelpers : Uses libraryCompiler libraryLoad libraryText "a" "helpers" :=
    ⟨⟨some "a", [("helpers", none)], 1⟩, rfl, ("helpers", none), by simp [libraryCompiler], _, rfl⟩
  refine ⟨⟨rfl, "loop", ⟨"loop", ⟨("loop", none), by simp [libraryCompiler], hloop⟩, .refl⟩, .single huses⟩, ?_⟩
  exact ⟨_, _, rfl, rfl, .tail (.single hba) hahelpers⟩

end Cxpr.Imports
