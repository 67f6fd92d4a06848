import Cxpr.Document.Layout
import Cxpr.Document.Lower

/-! Declarations written as a block or line by line. The entries of a block are cut out by a scanner that does not know
    strings and takes `<` for a bracket; a line is classified by the braces and equal signs anywhere in it. Where neither
    is misled, the three layouts of a list of declarations are accepted alike and lower to the same model. -/

namespace Cxpr.Document
variable {D : Type}

/-! ### Layouts -/

inductive DeclKind where
  | param | state | input | output
  deriving DecidableEq

namespace DeclKind

def word : DeclKind → Text
  | .param => ['$']
  | .state => ['s', 't', 'a', 't', 'e']
  | .input => ['i', 'n']
  | .output => ['o', 'u', 't']

def lead : DeclKind → Text
  | .param => ['$']
  | k => k.word ++ [' ']

def kind : DeclKind → Kind
  | .param => .paramDecl
  | .state => .stateDecl
  | .input => .inputDecl
  | .output => .outputDecl

end DeclKind

def commaBlock (k : DeclKind) (ds : List Text) : Text := k.word ++ [' ', '{', ' '] ++ [',', ' '].intercalate ds ++ [' ', '}']

def lineBlock (k : DeclKind) (ds : List Text) : Text :=
  ['\n'].intercalate ((k.word ++ [' ', '{']) :: (ds ++ [['}']]))

def separate (k : DeclKind) (ds : List Text) : Text := ['\n'].intercalate (ds.map (k.lead ++ ·))

/-- A declaration `name = expression` on one line, with a type and metadata perhaps: it starts with its name (an input with
    `$` and its name, perhaps), ends neither with a space nor with a semicolon, has no comment, and its strings and
    braces are closed. -/
structure IsDeclaration (k : DeclKind) (d : Text) : Prop where
  starts : ∃ c rest, (d = c :: rest ∨ k = .input ∧ d = '$' :: c :: rest) ∧ (c.isAlpha || c == '_') = true
  ends : ∀ c ∈ d.getLast?, isSpace c = false ∧ c ≠ ';'
  oneLine : '\n' ∉ d
  assigns : (topLevelChar d '=').isSome = true
  uncommented : uncommented d = true
  balanced : braceDelta d = 0

/-- The braces of a text, those in strings included, close nothing that was opened before it. -/
def closesOwn : Nat → Text → Bool
  | _, [] => true
  | n, c :: rest =>
    if c == '{' then closesOwn (n + 1) rest
    else if c == '}' then n != 0 && closesOwn (n - 1) rest
    else closesOwn n rest

/-- Neither scanner is misled. Behind every declaration but the last, the block scanner is outside all brackets. It cuts no
    declaration in two; defaulted inputs are cut in the same way on a line of their own. A state or output declaration
    has no opening brace, an output no `:=`, and an input closes no brace but its own. -/
structure Unambiguous (k : DeclKind) (ds : List Text) : Prop where
  closed : ∀ d ∈ ds.dropLast, (d.foldl Nest.advance {}).closed = true
  whole : k ≠ .input → ∀ d ∈ ds, Scan.Whole Nest.advance separates {} d = true
  braceless : k = .state ∨ k = .output → ∀ d ∈ ds, '{' ∉ d
  updateless : k = .output → ∀ d ∈ ds, strstr d [':', '='] = none
  ownBraces : k = .input → ∀ d ∈ ds, closesOwn 0 d = true

def modelOf (exprAstParse : Text → Except ParseError (Ast D)) (lib : Model.Library D) (source : Text) :
    Option (Model D) :=
  (docAstParse exprAstParse true source).toOption.bind fun root => (lowerModel lib root).toOption

def LayoutsAgree (exprAstParse : Text → Except ParseError (Ast D)) (lib : Model.Library D) (k : DeclKind)
    (ds : List Text) : Prop :=
  ∀ s ∈ [commaBlock k ds, lineBlock k ds, separate k ds], ∀ t ∈ [commaBlock k ds, lineBlock k ds, separate k ds],
    (docAstParse exprAstParse true s).toOption.isSome = (docAstParse exprAstParse true t).toOption.isSome ∧
      modelOf exprAstParse lib s = modelOf exprAstParse lib t

variable {c : Char} {p p' : Parser D} {node : Node D}

theorem nameStart_ne (h : (c.isAlpha || c == '_') = true) : isSpace c = false ∧ c ≠ '/' ∧ c ≠ '*' ∧ c ≠ '#' ∧
    c ≠ '$' ∧ c ≠ '{' ∧ c ≠ ':' ∧ c ≠ '=' := by
  have hne : ∀ x : Char, (x.isAlpha || x == '_') = false → c ≠ x := by
    rintro x hx rfl
    rw [h] at hx
    cases hx
  have hspace : isSpace c = false := by
    rw [isSpace]
    have h11 : c.toNat ≠ 11 := fun hc => hne (Char.ofNat 11) (by decide) (by rw [← hc, Char.ofNat_toNat])
    have h12 : c.toNat ≠ 12 := fun hc => hne (Char.ofNat 12) (by decide) (by rw [← hc, Char.ofNat_toNat])
    simp [hne ' ' (by decide), hne '\t' (by decide), hne '\n' (by decide), hne '\r' (by decide), h11, h12]
  exact ⟨hspace, hne _ (by decide), hne _ (by decide), hne _ (by decide), hne _ (by decide), hne _ (by decide),
    hne _ (by decide), hne _ (by decide)⟩

namespace IsDeclaration
variable {k : DeclKind} {d : Text} (h : IsDeclaration k d)
include h

theorem head : ∃ c rest, d = c :: rest ∧ isSpace c = false ∧ c ≠ '/' ∧ c ≠ '*' ∧ c ≠ '#' ∧ c ≠ '{' ∧ c ≠ '=' ∧
    (k ≠ .input → c ≠ '$' ∧ c ≠ ':') := by
  obtain ⟨c, rest, hd, hc⟩ := h.starts
  obtain ⟨hspace, hslash, hstar, hhash, hdollar, hbrace, hcolon, heq⟩ := nameStart_ne hc
  rcases hd with rfl | ⟨hk, rfl⟩
  · exact ⟨c, rest, rfl, hspace, hslash, hstar, hhash, hbrace, heq, fun _ => ⟨hdollar, hcolon⟩⟩
  · exact ⟨'$', c :: rest, rfl, by decide, by decide, by decide, by decide, by decide, by decide, fun hne => absurd hk hne⟩

theorem ne_nil : d ≠ [] := by
  obtain ⟨c, rest, rfl, -⟩ := h.head
  simp

theorem trimmed : Trimmed d where
  head c hc := by
    obtain ⟨c', rest, rfl, hspace, -⟩ := h.head
    cases hc
    exact hspace
  last := h.ends

theorem statement : Parser.Statement d where
  trimmed := h.trimmed
  nonblank := by
    obtain ⟨c, rest, rfl, -, hslash, -, hhash, -⟩ := h.head
    simp [Parser.blankLine, List.isPrefixOf, hhash, Ne.symm hslash]

theorem startsNoComment : startsNoComment d := by
  intro c hc
  obtain ⟨c', rest, rfl, -, hslash, hstar, -⟩ := h.head
  cases hc
  exact ⟨hslash, hstar⟩

end IsDeclaration

def entries (body : Text) : List Text := ((splitDecls body).map trim).filter (! ·.isEmpty)

theorem Nest.eq_of_closed {n : Nest} (h : n.closed = true) : n = {} := by
  obtain ⟨angle, brace, paren, bracket⟩ := n
  simp only [Nest.closed, Bool.and_eq_true, beq_iff_eq] at h
  obtain ⟨⟨⟨rfl, rfl⟩, rfl⟩, rfl⟩ := h
  rfl

theorem entries_append_separator {a : Text} (hclosed : (a.foldl Nest.advance {}).closed = true)
    (hc : c = ',' ∨ c = '\n') (b : Text) : entries (a ++ c :: b) = entries a ++ entries b := by
  have hcut : separates (a.foldl Nest.advance {}) c = true := by
    rcases hc with rfl | rfl <;> simp [separates, hclosed]
  have hnext : (a.foldl Nest.advance {}).advance c = {} := by
    rw [Nest.eq_of_closed hclosed]
    rcases hc with rfl | rfl <;> rfl
  rw [entries, splitDecls, Scan.split_append_cut hcut, hnext, List.map_append, List.filter_append]
  rfl

theorem entries_cons_space (hc : isSpace c = true) (hne : Nest.advance {} c = {}) (b : Text) :
    entries (c :: b) = entries b := by
  rw [entries, splitDecls, Scan.split, hne]
  split
  · have hnil : trim [] = [] := rfl
    simp [hnil, entries, splitDecls]
  · rw [entries, splitDecls]
    cases Scan.split Nest.advance separates {} b with
    | nil => rfl
    | cons piece pieces => simp [trim_cons_space hc]

theorem entries_concat_space (hc : isSpace c = true) (a : Text) : entries (a ++ [c]) = entries a := by
  rw [entries, splitDecls]
  cases hcut : separates (a.foldl Nest.advance {}) c with
  | true =>
    have hnil : trim [] = [] := rfl
    rw [Scan.split_append_cut hcut, List.map_append, List.filter_append]
    simp [Scan.split, hnil, entries, splitDecls]
  | false =>
    obtain ⟨pieces, last, ha, hconcat⟩ := Scan.split_concat hcut
    rw [hconcat, entries, splitDecls, ha, List.map_append, List.map_append]
    simp only [List.map_cons, List.map_nil, trim_concat_space hc]

theorem entries_of_whole {d : Text} (hwhole : Scan.Whole Nest.advance separates {} d = true) (hd : Trimmed d)
    (hne : d ≠ []) : entries d = [d] := by
  rw [entries, splitDecls, Scan.split_of_whole hwhole]
  simp [hd.trim_eq, hne]

theorem entries_commas {ds : List Text} (hclosed : ∀ d ∈ ds.dropLast, (d.foldl Nest.advance {}).closed = true) :
    entries ([',', ' '].intercalate ds) = ds.flatMap entries := by
  induction ds with
  | nil => rfl
  | cons d ds ih =>
    cases ds with
    | nil => simp
    | cons d' ds =>
      have hd : (d.foldl Nest.advance {}).closed = true := hclosed d (by simp)
      rw [List.intercalate_cons_cons, List.append_assoc, List.cons_append, List.cons_append, List.nil_append,
        entries_append_separator hd (.inl rfl), entries_cons_space (by decide) rfl,
        ih fun e he => hclosed e (by rw [List.dropLast_cons_cons]; simp [he])]
      rfl

theorem entries_lines {ds : List Text} (hclosed : ∀ d ∈ ds.dropLast, (d.foldl Nest.advance {}).closed = true) :
    entries (ds.flatMap (· ++ ['\n'])) = ds.flatMap entries := by
  induction ds with
  | nil => rfl
  | cons d ds ih =>
    cases ds with
    | nil =>
      rw [List.flatMap_cons, List.flatMap_nil, List.append_nil, entries_concat_space (by decide), List.flatMap_cons,
        List.flatMap_nil, List.append_nil]
    | cons d' ds =>
      have hd : (d.foldl Nest.advance {}).closed = true := hclosed d (by simp)
      rw [List.flatMap_cons, List.append_assoc, List.cons_append, List.nil_append,
        entries_append_separator hd (.inr rfl),
        ih fun e he => hclosed e (by rw [List.dropLast_cons_cons]; simp [he])]
      rfl

/-! ### Nodes without their places -/

def Node.bare (node : Node D) : Node D :=
  let nowhere : SourceSpan := ⟨⟨0, 1, 0⟩, ⟨0, 1, 0⟩⟩
  { node with span := nowhere, children := node.children.map ({ · with span := nowhere }) }

def nowhere (exprAstParse : Text → Except ParseError (Ast D)) : Parser D := ⟨[], true, exprAstParse⟩

def declNode (exprAstParse : Text → Except ParseError (Ast D)) (k : DeclKind) (entry : Text) : Option (Node D) :=
  ((nowhere exprAstParse).parseDecl k.kind (k == .param) entry 0 0).toOption.map Node.bare

theorem splitDeclHead_place (head : Text) (stripParam : Bool) (line column line' column' : Nat) :
    (Parser.splitDeclHead head stripParam line column).toOption =
      (Parser.splitDeclHead head stripParam line' column').toOption := by
  unfold Parser.splitDeclHead
  cases topLevelChar head ':' with
  | none =>
    simp only [pure_bind]
    generalize (if (stripParam && (trim head).head? == some '$') = true then (trim head).drop 1 else trim head) = name
    cases isIdent name <;> rfl
  | some colon =>
    dsimp only
    cases typeValid (trim (head.drop (colon + 1))) with
    | false => rfl
    | true =>
      simp only [if_true, pure_bind]
      generalize (if (stripParam && (trim (head.take colon)).head? == some '$') = true then (trim (head.take colon)).drop 1
        else trim (head.take colon)) = name
      cases isIdent name <;> rfl

theorem parseExpr_place (hp : p.exprAstParse = p'.exprAstParse) (text : Text)
    (line column line' column' : Nat) :
    (p.parseExpr text line column).toOption = (p'.parseExpr text line' column').toOption := by
  unfold Parser.parseExpr
  rw [hp]
  split
  · rfl
  · cases p'.exprAstParse text <;> rfl

theorem toOption_eq_cases {ε α : Type} {x y : Except ε α} (h : x.toOption = y.toOption) :
    (∃ e e', x = .error e ∧ y = .error e') ∨ ∃ a, x = .ok a ∧ y = .ok a := by
  cases x with
  | error e =>
    cases y with
    | error e' => exact .inl ⟨e, e', rfl, rfl⟩
    | ok b => cases h
  | ok a =>
    cases y with
    | error e' => cases h
    | ok b => exact .inr ⟨a, rfl, by cases h; rfl⟩

theorem assignNameExpr_congr (hp : p.exprAstParse = p'.exprAstParse) (kind : Kind)
    (span span' : SourceSpan) {s s' : Text} {eq eq' : Nat} (heq : topLevelChar s '=' = some eq)
    (heq' : topLevelChar s' '=' = some eq') (hafter : s.drop (eq + 1) = s'.drop (eq' + 1)) {stripParam : Bool}
    {line column line' column' : Nat}
    (hhead : (Parser.splitDeclHead (trim (s.take eq)) stripParam line column).toOption =
      (Parser.splitDeclHead (trim (s'.take eq')) stripParam line' column').toOption) (offset offset' : Nat) :
    (p.assignNameExpr { kind, span } s stripParam offset line column).toOption.map Node.bare =
      (p'.assignNameExpr { kind, span := span' } s' stripParam offset' line' column').toOption.map Node.bare := by
  unfold Parser.assignNameExpr
  rw [heq, heq']
  dsimp only
  rw [hafter]
  generalize trim (s'.drop (eq' + 1)) = expr
  generalize (if (expr.head? == some '{') = true then none else strchr expr '{') = opening
  rcases toOption_eq_cases hhead with ⟨e, e', he, he'⟩ | ⟨⟨name, type⟩, hok, hok'⟩
  · rw [he, he']
    rfl
  · rw [hok, hok', ok_bind, ok_bind]
    dsimp only
    split
    · rfl
    · cases opening with
      | none =>
        dsimp only
        rcases toOption_eq_cases (parseExpr_place hp expr line column line' column') with
          ⟨e, e', he, he'⟩ | ⟨ast, hok, hok'⟩
        · rw [he, he']
          rfl
        · rw [hok, hok', ok_bind, ok_bind]
          rfl
      | some i =>
        dsimp only
        rcases toOption_eq_cases (parseExpr_place hp (trim (expr.take i)) line column line' column') with
          ⟨e, e', he, he'⟩ | ⟨ast, hok, hok'⟩
        · rw [he, he']
          rfl
        · rw [hok, hok', ok_bind, ok_bind]
          cases strrchr (expr.drop i) '}' <;> rfl

theorem assignNameExpr_place (hp : p.exprAstParse = p'.exprAstParse) (kind : Kind)
    (span span' : SourceSpan) (statement : Text) (stripParam : Bool) (offset line column offset' line' column' : Nat) :
    (p.assignNameExpr { kind, span } statement stripParam offset line column).toOption.map Node.bare =
      (p'.assignNameExpr { kind, span := span' } statement stripParam offset' line' column').toOption.map Node.bare := by
  cases heq : topLevelChar statement '=' with
  | none =>
    unfold Parser.assignNameExpr
    rw [heq]
    rfl
  | some eq => exact assignNameExpr_congr hp kind span span' heq heq rfl (splitDeclHead_place _ _ _ _ _ _) _ _

theorem parseDecl_place (hp : p.exprAstParse = p'.exprAstParse) (kind : Kind) (params : Bool)
    (entry : Text) (offset stop offset' stop' : Nat) :
    (p.parseDecl kind params entry offset stop).toOption.map Node.bare =
      (p'.parseDecl kind params entry offset' stop').toOption.map Node.bare := by
  unfold Parser.parseDecl
  dsimp only
  split
  · rfl
  · split
    · exact assignNameExpr_place hp _ _ _ _ _ _ _ _ _ _ _
    · rcases toOption_eq_cases (splitDeclHead_place entry false (p.span offset stop).start.line
        ((p.span offset stop).start.column + 1) (p'.span offset' stop').start.line
        ((p'.span offset' stop').start.column + 1)) with ⟨e, e', he, he'⟩ | ⟨⟨name, type⟩, hok, hok'⟩
      · rw [he, he']
        rfl
      · rw [hok, hok', ok_bind, ok_bind]
        dsimp only
        split <;> rfl

theorem assignNameExpr_kind {node' : Node D} {statement : Text} {stripParam : Bool}
    {offset line column : Nat} (h : p.assignNameExpr node statement stripParam offset line column = .ok node') :
    node'.kind = node.kind := by
  unfold Parser.assignNameExpr at h
  cases heq : topLevelChar statement '=' with
  | none =>
    rw [heq] at h
    cases h
  | some eq =>
    rw [heq] at h
    dsimp only at h
    generalize trim (statement.drop (eq + 1)) = expr at h
    generalize (if (expr.head? == some '{') = true then none else strchr expr '{') = opening at h
    cases hhead : Parser.splitDeclHead (trim (statement.take eq)) stripParam line column with
    | error e =>
      rw [hhead] at h
      cases h
    | ok head =>
      rw [hhead, ok_bind] at h
      split at h
      · cases h
      · cases opening with
        | none =>
          dsimp only at h
          cases hexpr : p.parseExpr expr line column with
          | error e =>
            rw [hexpr] at h
            cases h
          | ok ast =>
            rw [hexpr] at h
            cases h
            rfl
        | some i =>
          dsimp only at h
          cases hexpr : p.parseExpr (trim (expr.take i)) line column with
          | error e =>
            rw [hexpr] at h
            cases h
          | ok ast =>
            rw [hexpr, ok_bind] at h
            cases hclose : strrchr (expr.drop i) '}' with
            | none =>
              rw [hclose] at h
              cases h
            | some close =>
              rw [hclose] at h
              cases h
              rfl

theorem parseDecl_kind {kind : Kind} {params : Bool} {entry : Text} {offset stop : Nat}
    (h : p.parseDecl kind params entry offset stop = .ok node) : node.kind = kind := by
  unfold Parser.parseDecl at h
  dsimp only at h
  split at h
  · cases h
  · split at h
    · exact assignNameExpr_kind h
    · cases hhead : Parser.splitDeclHead entry false (p.span offset stop).start.line
        ((p.span offset stop).start.column + 1) with
      | error e =>
        rw [hhead] at h
        cases h
      | ok head =>
        rw [hhead, ok_bind] at h
        split at h
        · cases h
        · cases h
          rfl

theorem declNode_kind {exprAstParse : Text → Except ParseError (Ast D)} {k : DeclKind} {entry : Text}
    (h : declNode exprAstParse k entry = some node) : node.kind = k.kind := by
  rw [declNode] at h
  obtain ⟨node', hnode', rfl⟩ := Option.map_eq_some_iff.mp h
  cases hparse : (nowhere exprAstParse).parseDecl k.kind (k == .param) entry 0 0 with
  | error e =>
    rw [hparse] at hnode'
    cases hnode'
  | ok node =>
    rw [hparse] at hnode'
    cases hnode'
    have hkind := parseDecl_kind hparse
    exact hkind

theorem mapM_toOption {α β γ δ ε : Type} {f : α → Except ε β} {g : γ → Option δ} {h : α → γ} {bare : β → δ}
    (hfg : ∀ a, (f a).toOption.map bare = g (h a)) (l : List α) :
    (l.mapM f).toOption.map (List.map bare) = (l.map h).mapM g := by
  induction l with
  | nil => rfl
  | cons a l ih =>
    rw [List.mapM_cons, List.map_cons, List.mapM_cons, ← hfg a, ← ih]
    cases f a with
    | error e => rfl
    | ok b =>
      rw [ok_bind]
      cases l.mapM f <;> rfl

theorem withOffsets_filter_map (offset : Nat) (pieces : List Text) :
    ((withOffsets offset pieces).filter fun (_, piece) => !(trim piece).isEmpty).map (fun x => trim x.2) =
      (pieces.map trim).filter (! ·.isEmpty) := by
  induction pieces generalizing offset with
  | nil => rfl
  | cons piece pieces ih =>
    rw [withOffsets, List.map_cons, List.filter_cons, List.filter_cons]
    dsimp only
    split
    · rw [List.map_cons, ih]
    · exact ih _

theorem parseCommaOrLineDecls_entries (p : Parser D) (k : DeclKind) (body : Text) (offset : Nat) :
    (p.parseCommaOrLineDecls k.kind body offset (k == .param)).toOption.map (List.map Node.bare) =
      (entries body).mapM (declNode p.exprAstParse k) := by
  have hplace : ∀ x : Nat × Text,
      (p.parseDecl k.kind (k == .param) (trim x.2) x.1 (x.1 + x.2.length)).toOption.map Node.bare =
        declNode p.exprAstParse k (trim x.2) := by
    intro x
    have hp : p.exprAstParse = (nowhere p.exprAstParse).exprAstParse := rfl
    rw [declNode]
    exact parseDecl_place hp _ _ _ _ _ _ _
  rw [entries, ← withOffsets_filter_map offset, ← mapM_toOption hplace]
  rfl

end Cxpr.Document
