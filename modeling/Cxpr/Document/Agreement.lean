import Cxpr.Document.Blocks

/-! The three layouts of a list of declarations have the same declarations, and lowering sees nothing else of them. -/

namespace Cxpr.Document
variable {D : Type}

namespace Model
variable (lib : Library D)

theorem lowerChildren_append (model : Model D) (xs ys : List (Node D)) :
    lowerChildren lib model (xs ++ ys) = lowerChildren lib model xs >>= fun model => lowerChildren lib model ys := by
  induction xs generalizing model with
  | nil => rfl
  | cons x xs ih =>
    rw [List.cons_append, lowerChildren, lowerChildren]
    cases lowerNode lib model x with
    | error e => rfl
    | ok model => exact ih model

theorem lowerNode_flat (model : Model D) (node : Node D) :
    lowerNode lib model node = lowerChildren lib model node.flat := by
  have hself : lowerChildren lib model [node] = lowerNode lib model node := by
    rw [lowerChildren]
    cases lowerNode lib model node <;> rfl
  obtain ⟨kind, span, name, value, text, expression, children⟩ := node
  cases kind
  case paramBlock | stateBlock | outputBlock => rw [lowerNode]; rfl
  case inputBlock =>
    rw [Node.flat]
    dsimp only
    split
    · rename_i hname
      rw [lowerNode, if_pos hname]
    · exact hself.symm
  all_goals exact hself.symm

theorem lowerChildren_flat (model : Model D) (nodes : List (Node D)) :
    lowerChildren lib model nodes = lowerChildren lib model (nodes.flatMap Node.flat) := by
  induction nodes generalizing model with
  | nil => rfl
  | cons node nodes ih =>
    rw [lowerChildren, List.flatMap_cons, lowerChildren_append, lowerNode_flat]
    cases lowerChildren lib model node.flat with
    | error e => rfl
    | ok model => exact ih model

theorem lowerMetadataChildren_bare (model : Model D) (node : Node D) (name : Text) (target : MetadataTarget) :
    model.lowerMetadataChildren node.bare name target = model.lowerMetadataChildren node name target := by
  unfold lowerMetadataChildren Node.bare
  rw [List.filter_map, List.foldlM_map]
  rfl

theorem lowerOutput_bare (model : Model D) (node : Node D) : model.lowerOutput node.bare = model.lowerOutput node := by
  have hempty : node.bare.children.isEmpty = node.children.isEmpty := by simp [Node.bare]
  unfold lowerOutput
  simp only [lowerMetadataChildren_bare, hempty]
  rfl

theorem lowerNode_bare {k : DeclKind} {node : Node D} (hkind : node.kind = k.kind) (model : Model D) :
    lowerNode lib model node.bare = lowerNode lib model node := by
  obtain ⟨kind, span, name, value, text, expression, children⟩ := node
  cases hkind
  cases k with
  | param => exact bind_congr fun model => lowerMetadataChildren_bare model _ _ _
  | state => exact bind_congr fun model => lowerMetadataChildren_bare model _ _ _
  | input =>
    cases expression with
    | none => rfl
    | some expr => exact bind_congr fun model => lowerMetadataChildren_bare model _ _ _
  | output => exact lowerOutput_bare model _

theorem lowerChildren_bare {k : DeclKind} {nodes : List (Node D)} (hkind : ∀ node ∈ nodes, node.kind = k.kind)
    (model : Model D) : lowerChildren lib model (nodes.map Node.bare) = lowerChildren lib model nodes := by
  induction nodes generalizing model with
  | nil => rfl
  | cons node nodes ih =>
    rw [List.map_cons, lowerChildren, lowerChildren, lowerNode_bare lib (hkind node (by simp))]
    exact bind_congr fun model => ih (fun node hnode => hkind node (by simp [hnode])) model

end Model

def declarationsOf (exprAstParse : Text → Except ParseError (Ast D)) (source : Text) : Option (List (Node D)) :=
  (docAstParse exprAstParse true source).toOption.map fun root => root.children.flatMap Node.declarations

variable {k : DeclKind} {d : Text}

theorem mapM_kind {exprAstParse : Text → Except ParseError (Ast D)} {es : List Text}
    {nodes : List (Node D)} (h : es.mapM (declNode exprAstParse k) = some nodes) : ∀ node ∈ nodes, node.kind = k.kind := by
  induction es generalizing nodes with
  | nil =>
    cases h
    simp
  | cons e es ih =>
    rw [List.mapM_cons] at h
    obtain ⟨first, hfirst, h⟩ := Option.bind_eq_some_iff.mp h
    obtain ⟨rest, hrest, h⟩ := Option.bind_eq_some_iff.mp h
    cases h
    intro node hnode
    rcases List.mem_cons.mp hnode with rfl | hnode
    · exact declNode_kind hfirst
    · exact ih hrest node hnode

theorem parseDocument_kind {p : Parser D} {root : Node D} (h : p.parseDocument = .ok root) : root.kind = .file := by
  unfold Parser.parseDocument at h
  dsimp only at h
  cases hfold : (Parser.lines p.source).foldlM (p.readLine (p.source.length + 1)) {} with
  | error e =>
    rw [hfold] at h
    cases h
  | ok cut =>
    rw [hfold, ok_bind] at h
    cases hflush : p.flush (p.source.length + 1) cut p.source.length with
    | error e =>
      rw [hflush] at h
      cases h
    | ok cut =>
      rw [hflush] at h
      cases h
      rfl

theorem lowerModel_declarations (lib : Model.Library D) {root : Node D} (hroot : root.kind = .file)
    (hkind : ∀ node ∈ root.children.flatMap Node.declarations, node.kind = k.kind) :
    (lowerModel lib root).toOption =
      (Model.lowerChildren lib {} (root.children.flatMap Node.declarations)).toOption := by
  have hfile : Model.lowerNode lib {} root = Model.lowerChildren lib {} root.children := by
    obtain ⟨kind, span, name, value, text, expression, children⟩ := root
    cases hroot
    rfl
  have hbare : root.children.flatMap Node.declarations = (root.children.flatMap Node.flat).map Node.bare :=
    List.map_flatMap.symm
  have hflat : ∀ node ∈ root.children.flatMap Node.flat, node.kind = k.kind := by
    intro node hnode
    exact hkind node.bare (by rw [hbare]; exact List.mem_map_of_mem hnode)
  rw [hbare, Model.lowerChildren_bare lib hflat, ← Model.lowerChildren_flat, lowerModel, hfile]
  cases Model.lowerChildren lib {} root.children <;> rfl

theorem modelOf_eq {exprAstParse : Text → Except ParseError (Ast D)} (lib : Model.Library D) {es : List Text}
    {source : Text} (h : declarationsOf exprAstParse source = es.mapM (declNode exprAstParse k)) :
    modelOf exprAstParse lib source =
      (es.mapM (declNode exprAstParse k)).bind fun nodes => (Model.lowerChildren lib {} nodes).toOption := by
  rw [← h, modelOf]
  rw [declarationsOf] at h ⊢
  cases hparse : docAstParse exprAstParse true source with
  | error e => rfl
  | ok root =>
    rw [hparse] at h
    exact lowerModel_declarations lib (parseDocument_kind hparse) (mapM_kind h.symm)

section Texts
variable {P : Text → Prop} (hnil : P []) (happend : ∀ a b, P a → P b → P (a ++ b))
include hnil happend

theorem intercalate_of_append {sep : Text} (hsep : P sep) {ds : List Text} (hds : ∀ d ∈ ds, P d) :
    P (sep.intercalate ds) := by
  induction ds with
  | nil => exact hnil
  | cons d ds ih =>
    have hd : P d := hds d (by simp)
    have hrest := ih fun e he => hds e (by simp [he])
    cases ds with
    | nil =>
      rw [List.intercalate_singleton]
      exact hd
    | cons e es =>
      rw [List.intercalate_cons_cons]
      exact happend _ _ (happend _ _ hd hsep) hrest

theorem flatMap_of_append {sep : Text} (hsep : P sep) {ds : List Text} (hds : ∀ d ∈ ds, P d) :
    P (ds.flatMap (· ++ sep)) := by
  induction ds with
  | nil => exact hnil
  | cons d ds ih =>
    rw [List.flatMap_cons]
    exact happend _ _ (happend _ _ (hds d (by simp)) hsep) (ih fun e he => hds e (by simp [he]))

end Texts

def Plain (s : Text) : Prop := uncommented s = true ∧ startsNoComment s

theorem head_append {a b : Text} {c : Char} (h : c ∈ (a ++ b).head?) : c ∈ a.head? ∨ a = [] ∧ c ∈ b.head? := by
  cases a with
  | nil => exact .inr ⟨rfl, h⟩
  | cons x a => exact .inl h

theorem Plain.append (a b : Text) (ha : Plain a) (hb : Plain b) : Plain (a ++ b) := by
  refine ⟨uncommented_append ha.1 hb.1 hb.2, ?_⟩
  intro c hc
  rcases head_append hc with hc | ⟨-, hc⟩
  · exact ha.2 c hc
  · exact hb.2 c hc

theorem Plain.nil : Plain [] := ⟨rfl, fun _ hc => by cases hc⟩

structure Inside (k : DeclKind) (s : Text) : Prop where
  ownBraces : k = .input → closesOwn 0 s = true
  updateless : k = .output → strstr s [':', '='] = none ∧ ∀ c ∈ s.head?, c ≠ '='
  assigns : k = .output → '(' ∈ s → '=' ∈ s

theorem Inside.append (a b : Text) (ha : Inside k a) (hb : Inside k b) : Inside k (a ++ b) where
  ownBraces hk := closesOwn_append (ha.ownBraces hk) (hb.ownBraces hk)
  updateless hk := by
    refine ⟨strstr_append_none (ha.updateless hk).1 (hb.updateless hk).1 (hb.updateless hk).2, ?_⟩
    intro c hc
    rcases head_append hc with hc | ⟨-, hc⟩
    · exact (ha.updateless hk).2 c hc
    · exact (hb.updateless hk).2 c hc
  assigns hk hmem := by
    rcases List.mem_append.mp hmem with hmem | hmem
    · exact List.mem_append_left _ (ha.assigns hk hmem)
    · exact List.mem_append_right _ (hb.assigns hk hmem)

theorem Inside.nil (k : DeclKind) : Inside k [] := ⟨fun _ => rfl, fun _ => ⟨rfl, fun _ hc => by cases hc⟩, fun _ h => by cases h⟩

theorem IsDeclaration.plain (h : IsDeclaration k d) : Plain d := ⟨h.uncommented, h.startsNoComment⟩

theorem Unambiguous.inside {ds : List Text} (h : Unambiguous k ds) (hd : d ∈ ds)
    (hdecl : IsDeclaration k d) : Inside k d where
  ownBraces hk := h.ownBraces hk d hd
  updateless hk := by
    refine ⟨h.updateless hk d hd, ?_⟩
    obtain ⟨c, rest, rfl, -, -, -, -, -, heq, -⟩ := hdecl.head
    intro c' hc'
    cases hc'
    exact heq
  assigns _ _ := mem_of_topLevelChar hdecl.assigns

def block (k : DeclKind) (body : Text) : Text := k.word ++ ' ' :: '{' :: (body ++ ['}'])

theorem block_eq (k : DeclKind) (body : Text) : block k body = (k.word ++ [' ', '{']) ++ (body ++ ['}']) := by simp [block]

theorem commaBlock_eq (k : DeclKind) (ds : List Text) :
    commaBlock k ds = block k ([' '] ++ ([',', ' '].intercalate ds ++ [' '])) := by
  simp [commaBlock, block]

theorem lineBlock_eq (k : DeclKind) (ds : List Text) : lineBlock k ds = block k (['\n'] ++ ds.flatMap (· ++ ['\n'])) := by
  have hlines : ['\n'].intercalate (ds ++ [['}']]) = ds.flatMap (· ++ ['\n']) ++ ['}'] := by
    induction ds with
    | nil => rfl
    | cons d ds ih =>
      rw [List.cons_append, List.flatMap_cons, List.append_assoc, ← ih]
      cases ds <;> simp
  have hne : ds ++ [['}']] ≠ [] := by simp
  obtain ⟨l, ls, hls⟩ := List.exists_cons_of_ne_nil hne
  rw [lineBlock, hls, List.intercalate_cons_cons, ← hls, hlines, block_eq]
  simp

theorem Parser.statement_block (k : DeclKind) (body : Text) : Parser.Statement (block k body) := by
  have hlast : (block k body).getLast? = some '}' := by
    rw [block_eq, ← List.append_assoc, List.getLast?_concat]
  refine ⟨⟨?_, ?_⟩, ?_⟩
  · cases k <;> (intro c hc; cases hc; rfl)
  · intro c hc
    rw [hlast] at hc
    cases hc
    decide
  · cases k <;> rfl

theorem Parser.parseHostStart_block (k : DeclKind) (body : Text) : Parser.parseHostStart (block k body) = none := by
  cases k with
  | param => rfl
  | state => exact Parser.parseHostStart_word (by decide) _
  | input => exact Parser.parseHostStart_word (by decide) _
  | output => exact Parser.parseHostStart_word (by decide) _

theorem Plain.block {body : Text} (h : Plain body) (k : DeclKind) : Plain (block k body) := by
  have hword : Plain (k.word ++ [' ', '{']) := by
    refine ⟨by cases k <;> rfl, ?_⟩
    cases k <;> (intro c hc; cases hc; decide)
  have hbrace : Plain ['}'] := ⟨rfl, by intro c hc; cases hc; decide⟩
  rw [block_eq]
  exact Plain.append _ _ hword (Plain.append _ _ h hbrace)

theorem declarationsOf_children (exprAstParse : Text → Except ParseError (Ast D)) {source : Text} (h : Plain source) :
    declarationsOf exprAstParse source =
      ((Parser.parseDocument ⟨source, true, exprAstParse⟩).map (·.children)).toOption.map
        (List.flatMap Node.declarations) := by
  rw [declarationsOf, docAstParse, stripComments_of_uncommented h.1]
  cases Parser.parseDocument ⟨source, true, exprAstParse⟩ <;> rfl

theorem declarations_singleton (node : Parsed (Node D)) :
    (node.map ([·])).toOption.map (List.flatMap Node.declarations) = node.toOption.map Node.declarations := by
  cases node with
  | error e => rfl
  | ok node => exact congrArg some (List.append_nil _)

theorem declarationsOf_block (exprAstParse : Text → Except ParseError (Ast D)) {body : Text}
    (hplain : Plain body) (hinside : Inside k body)
    (hdoc : (Parser.parseDocument ⟨block k body, true, exprAstParse⟩).map (·.children) =
      Parser.parseHostStatement ⟨block k body, true, exprAstParse⟩ ((block k body).length + 1) (block k body) 0
        (block k body).length) :
    declarationsOf exprAstParse (block k body) = (entries body).mapM (declNode exprAstParse k) := by
  have hupdate : k = .output → strstr ('{' :: (body ++ ['}'])) [':', '='] = none := by
    intro hk
    have hbody := hinside.updateless hk
    have hopen : strstr ['{'] [':', '='] = none := rfl
    have hclose : strstr (body ++ ['}']) [':', '='] = none :=
      strstr_append_none hbody.1 rfl (by intro c hc; cases hc; decide)
    refine strstr_append_none hopen hclose ?_
    intro c hc
    rcases head_append hc with hc | ⟨-, hc⟩
    · exact hbody.2 c hc
    · cases hc
      decide
  rw [declarationsOf_children exprAstParse (hplain.block k), hdoc,
    Parser.parseHostStatement_eq rfl _ (Parser.statement_block k body) (Parser.parseHostStart_block k body),
    declarations_singleton]
  exact Parser.parseKeyword_block _ _ hinside.ownBraces hupdate hinside.assigns

theorem lead_line (hd : IsDeclaration k d) :
    Parser.Statement (k.lead ++ d) ∧ braceDelta (k.lead ++ d) = 0 ∧ '\n' ∉ k.lead ++ d ∧ Plain (k.lead ++ d) ∧
      Parser.parseHostStart (k.lead ++ d) = none := by
  have hlast : (k.lead ++ d).getLast? = d.getLast? := List.getLast?_append_of_ne_nil _ hd.ne_nil
  have hlead : k.lead.foldl Braces.advance {} = {} := by cases k <;> rfl
  have hplain : Plain k.lead := by
    refine ⟨by cases k <;> rfl, ?_⟩
    cases k <;> (intro c hc; cases hc; decide)
  refine ⟨⟨⟨?_, ?_⟩, by cases k <;> rfl⟩, ?_, ?_, Plain.append _ _ hplain hd.plain, ?_⟩
  · cases k <;> (intro c hc; cases hc; rfl)
  · rw [hlast]
    exact hd.ends
  · rw [braceDelta, List.foldl_append, hlead]
    exact hd.balanced
  · have hone := hd.oneLine
    cases k <;> simpa [DeclKind.lead, DeclKind.word] using hone
  · cases k with
    | param => rfl
    | state => exact Parser.parseHostStart_word (k := .state) (by decide) d
    | input => exact Parser.parseHostStart_word (k := .input) (by decide) d
    | output => exact Parser.parseHostStart_word (k := .output) (by decide) d

section
variable (exprAstParse : Text → Except ParseError (Ast D)) {k : DeclKind} {ds : List Text}
  (hdecl : ∀ d ∈ ds, IsDeclaration k d) (hclear : Unambiguous k ds)
include hdecl hclear

theorem declarationsOf_commaBlock :
    declarationsOf exprAstParse (commaBlock k ds) = (ds.flatMap entries).mapM (declNode exprAstParse k) := by
  have hplain : Plain ([' '] ++ ([',', ' '].intercalate ds ++ [' '])) := by
    have hspace : Plain [' '] := ⟨rfl, by intro c hc; cases hc; decide⟩
    have hcomma : Plain [',', ' '] := ⟨rfl, by intro c hc; cases hc; decide⟩
    have hds := intercalate_of_append Plain.nil Plain.append hcomma fun d hd => (hdecl d hd).plain
    exact Plain.append _ _ hspace (Plain.append _ _ hds hspace)
  have hinside : Inside k ([' '] ++ ([',', ' '].intercalate ds ++ [' '])) := by
    have hspace : Inside k [' '] := ⟨fun _ => rfl, fun _ => ⟨rfl, by intro c hc; cases hc; decide⟩, by simp⟩
    have hcomma : Inside k [',', ' '] := ⟨fun _ => rfl, fun _ => ⟨rfl, by intro c hc; cases hc; decide⟩, by simp⟩
    have hds := intercalate_of_append (Inside.nil k) Inside.append hcomma fun d hd => hclear.inside hd (hdecl d hd)
    exact Inside.append _ _ hspace (Inside.append _ _ hds hspace)
  have hline : '\n' ∉ block k ([' '] ++ ([',', ' '].intercalate ds ++ [' '])) := by
    have hds : '\n' ∉ [',', ' '].intercalate ds :=
      intercalate_of_append (P := fun s => '\n' ∉ s) (by simp) (by simp_all) (by decide) fun d hd => (hdecl d hd).oneLine
    cases k <;> simp [block, DeclKind.word, hds]
  have hentries : entries ([' '] ++ ([',', ' '].intercalate ds ++ [' '])) = ds.flatMap entries := by
    rw [List.singleton_append, entries_cons_space rfl rfl, entries_concat_space rfl, entries_commas hclear.closed]
  rw [commaBlock_eq, declarationsOf_block exprAstParse hplain hinside
    (Parser.parseDocument_line (Parser.statement_block k _) hline), hentries]

theorem declarationsOf_lineBlock :
    declarationsOf exprAstParse (lineBlock k ds) = (ds.flatMap entries).mapM (declNode exprAstParse k) := by
  have hplain : Plain (['\n'] ++ ds.flatMap (· ++ ['\n'])) := by
    have hnewline : Plain ['\n'] := ⟨rfl, by intro c hc; cases hc; decide⟩
    exact Plain.append _ _ hnewline (flatMap_of_append Plain.nil Plain.append hnewline fun d hd => (hdecl d hd).plain)
  have hinside : Inside k (['\n'] ++ ds.flatMap (· ++ ['\n'])) := by
    have hnewline : Inside k ['\n'] := ⟨fun _ => rfl, fun _ => ⟨rfl, by intro c hc; cases hc; decide⟩, by simp⟩
    exact Inside.append _ _ hnewline
      (flatMap_of_append (Inside.nil k) Inside.append hnewline fun d hd => hclear.inside hd (hdecl d hd))
  have hentries : entries (['\n'] ++ ds.flatMap (· ++ ['\n'])) = ds.flatMap entries := by
    rw [List.singleton_append, entries_cons_space rfl rfl, entries_lines hclear.closed]
  have hfirst : Parser.Statement (k.word ++ [' ', '{']) := by
    refine ⟨⟨?_, ?_⟩, by cases k <;> rfl⟩
    · cases k <;> (intro c hc; cases hc; rfl)
    · cases k <;> (intro c hc; cases hc; decide)
  have hlines : ∀ l ∈ (k.word ++ [' ', '{']) :: ds, '\n' ∉ l := by
    intro l hl
    rcases List.mem_cons.mp hl with rfl | hl
    · cases k <;> decide
    · exact (hdecl l hl).oneLine
  have hdoc := Parser.parseDocument_block (p := ⟨lineBlock k ds, true, exprAstParse⟩) hfirst (by cases k <;> rfl)
    (fun d hd => ⟨(hdecl d hd).statement, (hdecl d hd).balanced⟩) hlines rfl
  rw [lineBlock_eq] at hdoc ⊢
  rw [declarationsOf_block exprAstParse hplain hinside hdoc, hentries]

end

section
variable {k : DeclKind} {ds : List Text} (hdecl : ∀ d ∈ ds, IsDeclaration k d)
  (hwhole : k ≠ .input → ∀ d ∈ ds, Scan.Whole Nest.advance separates {} d = true)
  (hbraceless : k = .state ∨ k = .output → ∀ d ∈ ds, '{' ∉ d)
  (hupdateless : k = .output → ∀ d ∈ ds, strstr d [':', '='] = none)
include hdecl hwhole hbraceless hupdateless

theorem parseLines_declarations {p : Parser D} (hmodel : p.modelExtension = true) (fuel offset : Nat) :
    (p.parseLines fuel offset (ds.map (k.lead ++ ·))).toOption.map (List.flatMap Node.declarations) =
      (ds.flatMap entries).mapM (declNode p.exprAstParse k) := by
  induction ds generalizing offset with
  | nil => rfl
  | cons d ds ih =>
    have hd := hdecl d (by simp)
    have hone : k ≠ .input → entries d = [d] := fun hk => entries_of_whole (hwhole hk d (by simp)) hd.trimmed hd.ne_nil
    obtain ⟨hstatement, -, -, -, hhost⟩ := lead_line hd
    have hline := Parser.parseKeyword_line (p := p) (p.parseHostFields fuel)
      ⟨offset, p.span offset (offset + (k.lead ++ d).length)⟩ hd hone (fun hk => hbraceless hk d (by simp))
      (fun hk => hupdateless hk d (by simp))
    have hrest := ih (fun e he => hdecl e (by simp [he])) (fun hk e he => hwhole hk e (by simp [he]))
      (fun hk e he => hbraceless hk e (by simp [he])) (fun hk e he => hupdateless hk e (by simp [he]))
      (offset + (k.lead ++ d).length + 1)
    rw [List.map_cons, Parser.parseLines, Parser.parseHostStatement_eq hmodel fuel hstatement hhost, List.flatMap_cons,
      List.mapM_append, ← hline, ← hrest]
    cases p.parseKeyword (p.parseHostFields fuel) ⟨offset, p.span offset (offset + (k.lead ++ d).length)⟩
        (k.lead ++ d) with
    | error e => rfl
    | ok node =>
      show ((p.parseLines fuel _ (ds.map (k.lead ++ ·))).map ([node] ++ ·)).toOption.map _ = _
      cases p.parseLines fuel (offset + (k.lead ++ d).length + 1) (ds.map (k.lead ++ ·)) <;> rfl

theorem declarationsOf_separate (exprAstParse : Text → Except ParseError (Ast D)) :
    declarationsOf exprAstParse (separate k ds) = (ds.flatMap entries).mapM (declNode exprAstParse k) := by
  cases ds with
  | nil => rfl
  | cons d ds =>
    have hline : ∀ l ∈ (k.lead ++ d) :: ds.map (k.lead ++ ·), ∃ e, IsDeclaration k e ∧ l = k.lead ++ e := by
      intro l hl
      rw [← List.map_cons (f := (k.lead ++ ·))] at hl
      obtain ⟨e, he, rfl⟩ := List.mem_map.mp hl
      exact ⟨e, hdecl e he, rfl⟩
    have hplain : Plain (separate k (d :: ds)) := by
      refine intercalate_of_append Plain.nil Plain.append ⟨rfl, by intro c hc; cases hc; decide⟩ ?_
      intro l hl
      obtain ⟨e, he, rfl⟩ := hline l hl
      exact (lead_line he).2.2.2.1
    have hdoc := Parser.parseDocument_lines (p := ⟨separate k (d :: ds), true, exprAstParse⟩)
      (fun l hl => by
        obtain ⟨e, he, rfl⟩ := hline l hl
        exact ⟨(lead_line he).1, (lead_line he).2.1⟩)
      (fun l hl => by
        obtain ⟨e, he, rfl⟩ := hline l hl
        exact (lead_line he).2.2.1) rfl
    rw [declarationsOf_children exprAstParse hplain, hdoc]
    exact parseLines_declarations hdecl hwhole hbraceless hupdateless rfl _ _

end

theorem isSome_docAstParse (exprAstParse : Text → Except ParseError (Ast D)) (source : Text) :
    (docAstParse exprAstParse true source).toOption.isSome = (declarationsOf exprAstParse source).isSome := by
  rw [declarationsOf, Option.isSome_map]

/-- Numerals and comparisons of two numerals, as the expression parser reads them. -/
def numeralParse (text : Text) : Except ParseError (Ast Nat) :=
  match digitsValue text with
  | some (n, []) => .ok (.number n)
  | some (n, ' ' :: '<' :: ' ' :: rest) =>
    match digitsValue rest with
    | some (m, []) => .ok (.binary .lt (.number n) (.number m))
    | _ => .error ⟨⟨.syntaxError, "Unexpected token"⟩, 1, 1⟩
  | _ => .error ⟨⟨.syntaxError, "Unexpected token"⟩, 1, 1⟩

def numeralLibrary : Model.Library Nat := ⟨fun text => (numeralParse text).mapError (·.error), fun text _ => .ok text⟩

end Cxpr.Document
