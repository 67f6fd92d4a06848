import Cxpr.Lib.Marking
import Cxpr.Model.Expressions
import Cxpr.Model.Fused

/-! The bindings that selected outputs require (`src/model/dependencies.c`), as the walk over the names marks them, and the
    names that an evaluation of the outputs can look up. -/

namespace Cxpr.Model
variable {D χ : Type}

/-- A `cxpr_model_compiled` with the layout of its slots, if `cxpr_model_try_compile_fused_ir` has kept one: it has a slot
    for every output and a commit for every update. -/
structure LaidOut (D : Type) extends Program D where
  layout : Option Layout
  layout_outputs : ∀ l, layout = some l → l.outputs.map (·.name) = outputs
  layout_commits : ∀ l, layout = some l → (l.commits.map (l.slotNames[·.stateSlot]?)).Perm
    ((bindings.filter (·.kind = .stateUpdate)).map fun b => some b.name)

def LaidOut.slots (p : LaidOut D) : Layout := p.layout.getD ⟨[], [], [], [], []⟩

/-- What bindings are required for: all outputs or those of some indices, and the commits and captures on request. -/
structure Selection where
  outputs : Option (List Nat)
  stateCommits : Bool
  historyCaptures : Bool

mutual

/-- `cxpr_model_compiled_mark_required_ast`. -/
def markRequiredAst (symbol : String → List Bool → List Bool) : Ast D → List Bool → List Bool
  | .identifier name, required => symbol name required
  | .fieldAccess object _, required => symbol object required
  | .chainAccess (first :: _), required => symbol first required
  | .binary _ l r, required => markRequiredAst symbol r (markRequiredAst symbol l required)
  | .unary _ a, required => markRequiredAst symbol a required
  | .call _ args _, required => markRequiredList symbol args required
  | .producerAccess _ args _ _, required => markRequiredList symbol args required
  | .index t i, required => markRequiredAst symbol i (markRequiredAst symbol t required)
  | .ternary c t e, required => markRequiredAst symbol e (markRequiredAst symbol t (markRequiredAst symbol c required))
  | .number _, required | .int64 _, required | .bool _, required | .string _, required | .array _, required
  | .record _ _, required | .param _, required | .fieldOf _ _, required | .chainAccess [], required => required

def markRequiredList (symbol : String → List Bool → List Bool) : List (Ast D) → List Bool → List Bool
  | [], required => required
  | a :: as, required => markRequiredList symbol as (markRequiredAst symbol a required)

end

def Program.bindingIndexForName (p : Program D) (name : String) : Option Nat := p.bindings.findIdx? (·.name == name)

/-- `cxpr_model_compiled_mark_required_symbol`, with the depth that is left. -/
def Program.markRequiredSymbol (p : Program D) : Nat → String → List Bool → List Bool
  | 0, _, required => required
  | depth + 1, name, required =>
    match p.bindingIndexForName name with
    | none => required
    | some index =>
      if required.getD index false then required
      else
        match p.bindings[index]? with
        | none => required.set index true
        | some b => markRequiredAst (p.markRequiredSymbol depth) b.ast (required.set index true)

def markSymbols {α : Type} (mark : String → List Bool → List Bool) (symbol : α → Option String) (err : Error) :
    List α → List Bool → Except Error (List Bool)
  | [], required => .ok required
  | x :: xs, required =>
    match symbol x with
    | none => .error err
    | some name => markSymbols mark symbol err xs (mark name required)

/-- The loops of `cxpr_model_compiled_mark_required_bindings` over the outputs. -/
def markOutputs (mark : String → List Bool → List Bool) (refs : List SlotRef) (indices : Option (List Nat))
    (required : List Bool) : Except Error (List Bool) :=
  match indices with
  | none => .ok (refs.foldl (fun required r => mark r.name required) required)
  | some indices =>
    markSymbols mark (fun i => (refs[i]?).map (·.name)) ⟨.syntaxError, "Model selected-output index out of range"⟩
      indices required

def markCommits (mark : String → List Bool → List Bool) (slots : Layout) (requested : Bool) (required : List Bool) :
    Except Error (List Bool) :=
  if requested then
    markSymbols mark (fun c => slots.slotNames[c.stateSlot]?) ⟨.syntaxError, "Model state commit slot out of range"⟩
      slots.commits required
  else .ok required

def markHistories (mark : String → List Bool → List Bool) (specs : List (HistorySpec D)) (requested : Bool)
    (required : List Bool) : List Bool :=
  if requested then specs.foldl (fun required spec => mark spec.name required) required else required

/-- `cxpr_model_compiled_mark_required_bindings`, from no marks. Each visit marks a binding, so the number of bindings is
    depth enough. -/
def LaidOut.markRequiredBindings (p : LaidOut D) (sel : Selection) : Except Error (List Bool) := do
  let mark := p.markRequiredSymbol p.bindings.length
  let required ← markOutputs mark p.slots.outputs sel.outputs (List.replicate p.bindings.length false)
  let required ← markCommits mark p.slots sel.stateCommits required
  return markHistories mark p.historySpecs sel.historyCaptures required

def parts : Ast D → List (Ast D)
  | .array es => es
  | .fieldOf base _ => [base]
  | .producerAccess _ args _ _ => args
  | .binary _ l r => [l, r]
  | .unary _ a => [a]
  | .call _ args _ => args
  | .index t i => [t, i]
  | .ternary c t e => [c, t, e]
  | _ => []

def called : Ast D → Option (String × List (Ast D) × List (Option String))
  | .call name args argNames | .producerAccess name args argNames _ => some (name, args, argNames)
  | _ => none

/-- Evaluating an expression can look a name up in the context. Names that a record or a function binds hide those of the
    context, but not their fields, which are looked for among the structs of all contexts. -/
inductive Looks (reg : Registry D) : List String → Ast D → String → Prop
  | identifier {hidden : List String} {n : String} (hn : n ∉ hidden) : Looks reg hidden (.identifier n) n
  | param {hidden : List String} {name n : String} (hn : n ∈ paramNames name) : Looks reg hidden (.param name) n
  | object {hidden : List String} {object field : String} : Looks reg hidden (.fieldAccess object field) object
  | key {hidden : List String} {object field : String} (hn : Ast.fullKey [object, field] ∉ hidden) :
    Looks reg hidden (.fieldAccess object field) (Ast.fullKey [object, field])
  | chain {hidden rest : List String} {n : String} : Looks reg hidden (.chainAccess (n :: rest)) n
  | part {hidden : List String} {ast part : Ast D} {n : String} (hpart : part ∈ parts ast) (hn : Looks reg hidden part n) :
    Looks reg hidden ast n
  | recordField {hidden names : List String} {values : List (Ast D)} {i : Nat} {value : Ast D} {n : String}
    (hvalue : values[i]? = some value) (hn : Looks reg (names.take i ++ hidden) value n) :
    Looks reg hidden (.record names values) n
  | structArg {hidden : List String} {ast : Ast D} {name : String} {args ordered : List (Ast D)}
    {argNames : List (Option String)} {entry : FuncEntry D} {i : Nat} {object field n : String} {fields : List String}
    (hcall : called ast = some (name, args, argNames)) (hentry : reg.find name = some entry)
    (hordered : callBindArgs entry args argNames = .ok ordered) (harg : ordered[i]? = some (.identifier object))
    (hfields : entry.definedParamFields[i]? = some fields) (hfield : field ∈ fields)
    (hkey : n = object ++ "." ++ field ∨ n = object ++ "_" ++ field) (hn : n ∉ hidden) : Looks reg hidden ast n
  | body {hidden : List String} {ast body : Ast D} {name n : String} {args : List (Ast D)} {argNames : List (Option String)}
    {entry : FuncEntry D} (hcall : called ast = some (name, args, argNames)) (hentry : reg.find name = some entry)
    (hbody : entry.definedBody = some body ∨ body ∈ entry.definedReturnFields.map (·.2))
    (hn : Looks reg (entry.definedParamNames ++ hidden) body n) : Looks reg hidden ast n

inductive Program.Reads (p : Program D) (reg : Registry D) : String → String → Prop
  | binding {b : Binding D} {n : String} (hb : b ∈ p.bindings) (hn : Looks reg [] b.ast n) : p.Reads reg b.name n
  | default {st : StateDefault D} {ast : Ast D} {n : String} (hst : st ∈ p.stateDefaults) (hast : st.initial = .inl ast)
    (hn : Looks reg [] ast n) : p.Reads reg st.name n

inductive HistorySpec.Captures (reg : Registry D) (spec : HistorySpec D) : String → Prop
  | key : spec.Captures reg spec.name
  | object {object field : String} (h : spec.name.splitOn "." = [object, field]) : spec.Captures reg object
  | target {ast : Ast D} {n : String} (h : spec.target = some ast) (hn : Looks reg [] ast n) : spec.Captures reg n

def Selection.Selects (sel : Selection) (i : Nat) : Prop := ∀ indices, sel.outputs = some indices → i ∈ indices

inductive Selection.Root (sel : Selection) (p : Program D) (reg : Registry D) : String → Prop
  | output {i : Nat} {n : String} (hi : sel.Selects i) (hn : p.outputs[i]? = some n) : sel.Root p reg n
  | commit {b : Binding D} (h : sel.stateCommits = true) (hb : b ∈ p.bindings) (hkind : b.kind = .stateUpdate) :
    sel.Root p reg b.name
  | capture {spec : HistorySpec D} {n : String} (h : sel.historyCaptures = true) (hspec : spec ∈ p.historySpecs)
    (hn : spec.Captures reg n) : sel.Root p reg n

inductive Selection.Required (sel : Selection) (p : Program D) (reg : Registry D) : String → Prop
  | root {n : String} (h : sel.Root p reg n) : sel.Required p reg n
  | read {n m : String} (hn : sel.Required p reg n) (h : p.Reads reg n m) : sel.Required p reg m

def Program.Bound (p : Program D) (n : String) : Prop := ∃ b ∈ p.bindings, b.name = n

def Program.Covers (p : Program D) (reg : Registry D) (sel : Selection) (required : List Bool) : Prop :=
  ∀ (i : Nat) (b : Binding D), p.bindings[i]? = some b → sel.Required p reg b.name → required[i]? = some true

mutual

def walked : Ast D → List String
  | .identifier name => [name]
  | .fieldAccess object _ => [object]
  | .chainAccess (first :: _) => [first]
  | .binary _ l r => walked l ++ walked r
  | .unary _ a => walked a
  | .call _ args _ => walkedList args
  | .producerAccess _ args _ _ => walkedList args
  | .index t i => walked t ++ walked i
  | .ternary c t e => walked c ++ (walked t ++ walked e)
  | .number _ | .int64 _ | .bool _ | .string _ | .array _ | .record _ _ | .param _ | .fieldOf _ _ | .chainAccess [] => []

def walkedList : List (Ast D) → List String
  | [] => []
  | a :: as => walked a ++ walkedList as

end

theorem findIdx?_lt {bs : List (Binding D)} {f : Binding D → Bool} {i : Nat} (h : bs.findIdx? f = some i) : i < bs.length :=
  (List.findIdx?_eq_some_iff_getElem.mp h).1

def Program.graph (p : Program D) : Marking.Graph String where
  count := p.bindings.length
  index := p.bindingIndexForName
  mentions i := ((p.bindings[i]?).map fun b : Binding D => walked b.ast).getD []
  index_lt := findIdx?_lt

inductive LaidOut.WalkRoot (p : LaidOut D) (sel : Selection) : String → Prop
  | output {i : Nat} {r : SlotRef} (hi : sel.Selects i) (hr : p.slots.outputs[i]? = some r) : p.WalkRoot sel r.name
  | commit {c : StateCommit} {n : String} (h : sel.stateCommits = true) (hc : c ∈ p.slots.commits)
    (hn : p.slots.slotNames[c.stateSlot]? = some n) : p.WalkRoot sel n
  | history {spec : HistorySpec D} (h : sel.historyCaptures = true) (hspec : spec ∈ p.historySpecs) : p.WalkRoot sel spec.name

def LaidOut.Walks (p : LaidOut D) (sel : Selection) : String → Prop := Marking.Reached p.graph (p.WalkRoot sel)

/-- The names that a selection reads itself, or through one binding that the walk comes to; on the way can be states that
    have no update. -/
inductive LaidOut.Near (p : LaidOut D) (reg : Registry D) (sel : Selection) : String → Prop
  | root {n : String} (h : sel.Root p.toProgram reg n) : p.Near reg sel n
  | read {n m : String} (hn : p.Walks sel n) (hbound : p.Bound n) (h : p.Reads reg n m) : p.Near reg sel m
  | default {n m : String} (hn : p.Near reg sel n) (hfree : ¬ p.Bound n) (h : p.Reads reg n m) : p.Near reg sel m

/-- The walk comes to every binding that is read one step away from where it has been. -/
def LaidOut.Closed (p : LaidOut D) (reg : Registry D) (sel : Selection) : Prop :=
  ∀ n, p.Near reg sel n → p.Bound n → p.Walks sel n

mutual

theorem markRequiredAst_eq (symbol : String → List Bool → List Bool) (ast : Ast D) (required : List Bool) :
    markRequiredAst symbol ast required = (walked ast).foldl (fun required n => symbol n required) required := by
  cases ast with
  | binary op l r =>
    rw [markRequiredAst, walked, List.foldl_append, markRequiredAst_eq symbol l, markRequiredAst_eq symbol r]
  | unary op a => rw [markRequiredAst, walked, markRequiredAst_eq symbol a]
  | call name args argNames => rw [markRequiredAst, walked, markRequiredList_eq symbol args]
  | producerAccess name args argNames field => rw [markRequiredAst, walked, markRequiredList_eq symbol args]
  | index t i =>
    rw [markRequiredAst, walked, List.foldl_append, markRequiredAst_eq symbol t, markRequiredAst_eq symbol i]
  | ternary c t e =>
    rw [markRequiredAst, walked, List.foldl_append, List.foldl_append, markRequiredAst_eq symbol c,
      markRequiredAst_eq symbol t, markRequiredAst_eq symbol e]
  | chainAccess path => cases path <;> rfl
  | _ => rfl

theorem markRequiredList_eq (symbol : String → List Bool → List Bool) (asts : List (Ast D)) (required : List Bool) :
    markRequiredList symbol asts required = (walkedList asts).foldl (fun required n => symbol n required) required := by
  cases asts with
  | nil => rfl
  | cons a as =>
    rw [markRequiredList, walkedList, List.foldl_append, markRequiredAst_eq symbol a, markRequiredList_eq symbol as]

end

section
variable {p : LaidOut D} {reg : Registry D} {sel : Selection} {required : List Bool}

theorem markRequiredSymbol_eq (p : Program D) (depth : Nat) :
    p.markRequiredSymbol depth = Marking.visit p.graph depth := by
  induction depth with
  | zero => rfl
  | succ depth ih =>
    funext name required
    unfold Program.markRequiredSymbol Marking.visit
    show _ = (match p.bindingIndexForName name with | none => required | some i => _)
    cases hindex : p.bindingIndexForName name with
    | none => rfl
    | some index =>
      have hlt : index < p.bindings.length := findIdx?_lt hindex
      have hmentions : p.graph.mentions index = walked p.bindings[index].ast := by simp [Program.graph, hlt]
      simp only [List.getElem?_eq_getElem hlt, hmentions, markRequiredAst_eq, ih]

theorem index_of_mem (p : Program D) {i : Nat} {b : Binding D} (hb : p.bindings[i]? = some b) :
    p.bindingIndexForName b.name = some i := by
  obtain ⟨hlt, rfl⟩ := List.getElem?_eq_some_iff.mp hb
  refine List.findIdx?_eq_some_iff_getElem.mpr ⟨hlt, by simp, fun j hj => ?_⟩
  have hne := (List.nodup_iff_injective_getElem.mp p.binding_names)
  simp only [beq_iff_eq]
  intro heq
  have hinj := @hne ⟨j, by simpa using Nat.lt_trans hj hlt⟩ ⟨i, by simpa using hlt⟩ (by simpa using heq)
  simp at hinj
  omega

variable {n : String} {g : Marking.Graph String} {marks marks' : List Bool}

theorem exists_of_index {p : Program D} {i : Nat} (h : p.bindingIndexForName n = some i) :
    ∃ b, p.bindings[i]? = some b ∧ b.name = n := by
  obtain ⟨hlt, hname, -⟩ := List.findIdx?_eq_some_iff_getElem.mp h
  exact ⟨p.bindings[i], by simp [hlt], by simpa using hname⟩

theorem markSymbols_visited {α : Type} {symbol : α → Option String} {err : Error} {xs : List α} (hlen : marks.length = g.count)
    (h : markSymbols (Marking.visit g g.count) symbol err xs marks = .ok marks') :
    Marking.Visited g (fun n => ∃ x ∈ xs, symbol x = some n) marks marks' := by
  induction xs generalizing marks with
  | nil =>
    obtain rfl := Except.ok.inj h
    exact .refl (by simp) marks
  | cons x xs ih =>
    unfold markSymbols at h
    cases hx : symbol x with
    | none => rw [hx] at h; cases h
    | some name =>
      rw [hx] at h
      have hfirst := Marking.visited_visit hlen (hlen ▸ List.count_le_length) name
      have hrest := ih (hfirst.length.trans hlen) h
      exact (hfirst.trans hrest).congr fun n => by simp [hx, eq_comm]

theorem foldl_visited {α : Type} {symbol : α → String} (xs : List α)
    (hlen : marks.length = g.count) :
    Marking.Visited g (· ∈ xs.map symbol) marks
      (xs.foldl (fun marks x => Marking.visit g g.count (symbol x) marks) marks) := by
  rw [← List.foldl_map (f := symbol) (g := fun marks n => Marking.visit g g.count n marks)]
  exact Marking.visited_foldl (fun n marks hlen _ => Marking.visited_visit hlen (hlen ▸ List.count_le_length) n) _ hlen
    List.count_le_length

theorem markOutputs_visited {refs : List SlotRef}
    (hlen : marks.length = g.count) (h : markOutputs (Marking.visit g g.count) refs sel.outputs marks = .ok marks') :
    Marking.Visited g (fun n => ∃ i r, sel.Selects i ∧ refs[i]? = some r ∧ r.name = n) marks marks' := by
  unfold markOutputs at h
  unfold Selection.Selects
  cases houtputs : sel.outputs with
  | none =>
    simp only [houtputs] at h
    obtain rfl := Except.ok.inj h
    refine (foldl_visited refs hlen).congr fun n => ⟨fun hn => ?_, ?_⟩
    · obtain ⟨r, hr, rfl⟩ := List.mem_map.mp hn
      obtain ⟨i, hi⟩ := List.mem_iff_getElem?.mp hr
      exact ⟨i, r, by simp, hi, rfl⟩
    · rintro ⟨i, r, -, hr, rfl⟩
      exact List.mem_map_of_mem (List.mem_of_getElem? hr)
  | some indices =>
    simp only [houtputs] at h
    refine (markSymbols_visited hlen h).congr fun n => ⟨?_, ?_⟩
    · rintro ⟨i, hi, hn⟩
      obtain ⟨r, hr, rfl⟩ := Option.map_eq_some_iff.mp hn
      exact ⟨i, r, by simpa using hi, hr, rfl⟩
    · rintro ⟨i, r, hi, hr, rfl⟩
      exact ⟨i, hi indices rfl, by rw [hr]; rfl⟩

theorem markCommits_visited {slots : Layout} {requested : Bool}
    (hlen : marks.length = g.count) (h : markCommits (Marking.visit g g.count) slots requested marks = .ok marks') :
    Marking.Visited g (fun n => requested = true ∧ ∃ c ∈ slots.commits, slots.slotNames[c.stateSlot]? = some n) marks marks' := by
  unfold markCommits at h
  cases requested with
  | false =>
    obtain rfl := Except.ok.inj h
    exact .refl (by simp) marks
  | true => exact (markSymbols_visited hlen h).congr fun n => by simp

theorem markHistories_visited (specs : List (HistorySpec D)) (requested : Bool) (hlen : marks.length = g.count) :
    Marking.Visited g (fun n => requested = true ∧ n ∈ specs.map (·.name)) marks
      (markHistories (Marking.visit g g.count) specs requested marks) := by
  unfold markHistories
  cases requested with
  | false => exact .refl (by simp) marks
  | true => exact (foldl_visited specs hlen).congr fun n => by simp

theorem markRequiredBindings_visited (h : p.markRequiredBindings sel = .ok required) :
    Marking.Visited p.graph (p.WalkRoot sel) (List.replicate p.bindings.length false) required := by
  have hblank : (List.replicate p.bindings.length false).length = p.graph.count := List.length_replicate
  unfold LaidOut.markRequiredBindings at h
  rw [markRequiredSymbol_eq] at h
  obtain ⟨marks, houtputs, h⟩ := bind_eq_ok.mp h
  obtain ⟨marks', hcommits, h⟩ := bind_eq_ok.mp h
  obtain rfl := Except.ok.inj h
  have hfirst := markOutputs_visited hblank houtputs
  have hsecond := markCommits_visited (hfirst.length.trans hblank) hcommits
  have hthird := markHistories_visited p.historySpecs sel.historyCaptures
    (hsecond.length.trans (hfirst.length.trans hblank))
  refine ((hfirst.trans hsecond).trans hthird).congr fun n => ⟨?_, fun hn => ?_⟩
  · rintro ((⟨i, r, hi, hr, rfl⟩ | ⟨hrequested, c, hc, hn⟩) | ⟨hrequested, hn⟩)
    · exact .output hi hr
    · exact .commit hrequested hc hn
    · obtain ⟨spec, hspec, rfl⟩ := List.mem_map.mp hn
      exact .history hrequested hspec
  · cases hn with
    | output hi hr => exact .inl (.inl ⟨_, _, hi, hr, rfl⟩)
    | commit hrequested hc hn => exact .inl (.inr ⟨hrequested, _, hc, hn⟩)
    | history hrequested hspec => exact .inr ⟨hrequested, List.mem_map_of_mem hspec⟩

theorem marked_iff (h : p.markRequiredBindings sel = .ok required) {i : Nat} {b : Binding D} (hb : p.bindings[i]? = some b) :
    required[i]? = some true ↔ p.Walks sel b.name := by
  rw [(markRequiredBindings_visited h).marked_iff]
  constructor
  · rintro ⟨n, hn, hi⟩
    obtain ⟨b', hb', rfl⟩ := exists_of_index hi
    obtain rfl := Option.some.inj (hb'.symm.trans hb)
    exact hn
  · exact fun hn => ⟨b.name, hn, index_of_mem p.toProgram hb⟩

mutual

theorem looks_of_walked (reg : Registry D) {ast : Ast D} {n : String} (hn : n ∈ walked ast) : Looks reg [] ast n := by
  cases ast with
  | identifier name =>
    obtain rfl := List.mem_singleton.mp hn
    exact .identifier (by simp)
  | fieldAccess object field =>
    obtain rfl := List.mem_singleton.mp hn
    exact .object
  | chainAccess path =>
    cases path with
    | nil => simp [walked] at hn
    | cons first rest =>
      obtain rfl := List.mem_singleton.mp hn
      exact .chain
  | binary op l r =>
    rcases List.mem_append.mp hn with hn | hn
    · exact .part (show l ∈ parts _ by simp [parts]) (looks_of_walked reg hn)
    · exact .part (show r ∈ parts _ by simp [parts]) (looks_of_walked reg hn)
  | unary op a => exact .part (show a ∈ parts _ by simp [parts]) (looks_of_walked reg hn)
  | call name args argNames =>
    obtain ⟨a, ha, hlooks⟩ := looks_of_walkedList reg hn
    exact .part ha hlooks
  | producerAccess name args argNames field =>
    obtain ⟨a, ha, hlooks⟩ := looks_of_walkedList reg hn
    exact .part ha hlooks
  | index t i =>
    rcases List.mem_append.mp hn with hn | hn
    · exact .part (show t ∈ parts _ by simp [parts]) (looks_of_walked reg hn)
    · exact .part (show i ∈ parts _ by simp [parts]) (looks_of_walked reg hn)
  | ternary c t e =>
    rcases List.mem_append.mp hn with hn | hn
    · exact .part (show c ∈ parts _ by simp [parts]) (looks_of_walked reg hn)
    · rcases List.mem_append.mp hn with hn | hn
      · exact .part (show t ∈ parts _ by simp [parts]) (looks_of_walked reg hn)
      · exact .part (show e ∈ parts _ by simp [parts]) (looks_of_walked reg hn)
  | number | int64 | bool | string | array | record | param | fieldOf => simp [walked] at hn

theorem looks_of_walkedList (reg : Registry D) {asts : List (Ast D)} {n : String} (hn : n ∈ walkedList asts) :
    ∃ a ∈ asts, Looks reg [] a n := by
  cases asts with
  | nil => simp [walkedList] at hn
  | cons a as =>
    rcases List.mem_append.mp hn with hn | hn
    · exact ⟨a, List.mem_cons_self, looks_of_walked reg hn⟩
    · obtain ⟨a', ha', hlooks⟩ := looks_of_walkedList reg hn
      exact ⟨a', List.mem_cons_of_mem a ha', hlooks⟩

end

theorem commit_root {l : Layout} (hlayout : p.layout = some l) {c : StateCommit} (hc : c ∈ l.commits)
    (hn : l.slotNames[c.stateSlot]? = some n) : ∃ b ∈ p.bindings, b.kind = .stateUpdate ∧ b.name = n := by
  have hmem := List.mem_map_of_mem (f := fun c : StateCommit => l.slotNames[c.stateSlot]?) hc
  obtain ⟨b, hb, hname⟩ := List.mem_map.mp ((p.layout_commits l hlayout).mem_iff.mp hmem)
  obtain ⟨hb, hkind⟩ := List.mem_filter.mp hb
  exact ⟨b, hb, by simpa using hkind, Option.some.inj (hname.trans hn)⟩

theorem LaidOut.WalkRoot.root (h : p.WalkRoot sel n) : sel.Root p.toProgram reg n := by
  have hslots : p.slots = ⟨[], [], [], [], []⟩ ∨ ∃ l, p.layout = some l ∧ p.slots = l := by
    unfold LaidOut.slots
    cases hlayout : p.layout with
    | none => exact .inl rfl
    | some l => exact .inr ⟨l, rfl, rfl⟩
  cases h with
  | @output i r hi hr =>
    rcases hslots with hnone | ⟨l, hlayout, hslots⟩
    · simp [hnone] at hr
    · rw [hslots] at hr
      refine .output hi ?_
      rw [← p.layout_outputs l hlayout, List.getElem?_map, hr]
      rfl
  | commit hrequested hc hn =>
    rcases hslots with hnone | ⟨l, hlayout, hslots⟩
    · simp [hnone] at hc
    · rw [hslots] at hc hn
      obtain ⟨b, hb, hkind, rfl⟩ := commit_root hlayout hc hn
      exact .commit hrequested hb hkind
  | history hrequested hspec => exact .capture hrequested hspec .key

theorem required_of_walks (h : p.Walks sel n) : sel.Required p.toProgram reg n := by
  induction h with
  | root hroot => exact .root hroot.root
  | @step n m i _ hi hm ih =>
    obtain ⟨b, hb, rfl⟩ := exists_of_index hi
    have hwalked : m ∈ walked b.ast := by simpa [Program.graph, hb] using hm
    exact .read ih (.binding (List.mem_of_getElem? hb) (looks_of_walked reg hwalked))

theorem required_of_near (h : p.Near reg sel n) : sel.Required p.toProgram reg n := by
  induction h with
  | root hroot => exact .root hroot
  | read hn _ hread => exact .read (required_of_walks hn) hread
  | default _ _ hread ih => exact .read ih hread

theorem LaidOut.Closed.near (hclosed : p.Closed reg sel) (h : sel.Required p.toProgram reg n) :
    p.Near reg sel n := by
  induction h with
  | root hroot => exact .root hroot
  | @read n m hn hread ih =>
    by_cases hbound : p.Bound n
    · exact .read (hclosed n ih hbound) hbound hread
    · exact .default ih hbound hread

theorem covers_iff_closed (h : p.markRequiredBindings sel = .ok required) :
    p.Covers reg sel required ↔ p.Closed reg sel := by
  constructor
  · rintro hcovers n hn ⟨b, hb, rfl⟩
    obtain ⟨i, hi⟩ := List.mem_iff_getElem?.mp hb
    exact (marked_iff h hi).mp (hcovers i b hi (required_of_near hn))
  · intro hclosed i b hb hrequired
    exact (marked_iff h hb).mpr (hclosed _ (hclosed.near hrequired) ⟨b, List.mem_of_getElem? hb, rfl⟩)

end
end Cxpr.Model
