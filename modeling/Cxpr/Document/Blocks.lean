import Cxpr.Document.Declarations

/-! How a block and a line of declarations are parsed: the keyword picks the case, the block goes from the first brace to
    the last one, and a line that is not misread is one declaration. -/

namespace Cxpr.Document
variable {D : Type}

variable {s : Text} {c : Char}

theorem mem_of_topLevelChar (h : (topLevelChar s c).isSome = true) : c ∈ s := by
  obtain ⟨i, hi⟩ := Option.isSome_iff_exists.mp h
  have hhit := Scan.find_hit hi
  simp only [Bool.and_eq_true, beq_iff_eq] at hhit
  exact List.mem_of_mem_drop (List.mem_of_head? hhit.2)

theorem strchr_isSome (h : c ∈ s) : (strchr s c).isSome = true := by
  simpa [strchr, List.findIdx?_isSome] using h

theorem strchr_eq_none (h : c ∉ s) : strchr s c = none := by
  rw [strchr, List.findIdx?_eq_none_iff]
  rintro x hx
  rw [beq_eq_false_iff_ne]
  rintro rfl
  exact h hx

theorem strrchr_concat (s : Text) (c : Char) : strrchr (s ++ [c]) c = some s.length := by
  simp [strrchr, List.findIdx?_cons]

theorem braces_block (body : Text) : Parser.braces ('{' :: (body ++ ['}'])) = some (0, body.length + 1) := by
  have hopen : strchr ('{' :: (body ++ ['}'])) '{' = some 0 := rfl
  have hclose : strrchr ('{' :: (body ++ ['}'])) '}' = some (body.length + 1) := strrchr_concat ('{' :: body) '}'
  rw [Parser.braces, hopen, hclose]
  rfl

theorem between_block (body : Text) : Parser.between ('{' :: (body ++ ['}'])) 0 (body.length + 1) = body := by
  simp [Parser.between]

theorem strstr_append_none {x y : Char} {a b : Text} (ha : strstr a [x, y] = none) (hb : strstr b [x, y] = none)
    (hhead : ∀ c ∈ b.head?, c ≠ y) : strstr (a ++ b) [x, y] = none := by
  induction a with
  | nil => exact hb
  | cons c a ih =>
    rw [strstr] at ha
    split at ha
    · cases ha
    · rename_i hhere
      have hnot : ¬ ([x, y].isPrefixOf (c :: (a ++ b)) = true) := by
        cases a with
        | nil =>
          cases b with
          | nil => simp
          | cons d b =>
            have := hhead d rfl
            simp [List.isPrefixOf, Ne.symm this]
        | cons d a => simpa [List.isPrefixOf] using hhere
      rw [List.cons_append, strstr, if_neg hnot]
      rw [ih (Option.map_eq_none_iff.mp ha)]
      rfl

theorem closesOwn_succ {n : Nat} (h : closesOwn n s = true) : closesOwn (n + 1) s = true := by
  induction s generalizing n with
  | nil => rfl
  | cons c s ih =>
    rw [closesOwn] at h ⊢
    split
    · rename_i hopen
      rw [if_pos hopen] at h
      exact ih h
    · rename_i hopen
      rw [if_neg hopen] at h
      split
      · rename_i hclose
        rw [if_pos hclose, Bool.and_eq_true] at h
        have hn : n ≠ 0 := by simpa using h.1
        have := ih h.2
        rw [Nat.sub_add_cancel (Nat.pos_of_ne_zero hn)] at this
        simpa using this
      · rename_i hclose
        rw [if_neg hclose] at h
        exact ih h

theorem closesOwn_append {n : Nat} {a b : Text} (ha : closesOwn n a = true) (hb : closesOwn 0 b = true) :
    closesOwn n (a ++ b) = true := by
  induction a generalizing n with
  | nil =>
    rw [List.nil_append]
    induction n with
    | zero => exact hb
    | succ n ih => exact closesOwn_succ (ih rfl)
  | cons c a ih =>
    rw [closesOwn] at ha
    rw [List.cons_append, closesOwn]
    split
    · rename_i hopen
      rw [if_pos hopen] at ha
      exact ih ha
    · rename_i hopen
      rw [if_neg hopen] at ha
      split
      · rename_i hclose
        rw [if_pos hclose, Bool.and_eq_true] at ha
        rw [Bool.and_eq_true]
        exact ⟨ha.1, ih ha.2⟩
      · rename_i hclose
        rw [if_neg hclose] at ha
        exact ih ha

theorem advance_brace (n : Nest) (c : Char) : (n.advance c).brace =
    if c == '{' then n.brace + 1 else if c == '}' then n.brace - 1 else n.brace := by
  unfold Nest.advance
  split_ifs <;> simp_all

theorem find_inside {n : Nest} {m : Nat} (hn : n.brace = m + 1) (hs : closesOwn m s = true) :
    Scan.find Nest.advance (fun n rest => n.closed && rest.head? == some '=') n (s ++ ['}']) = none := by
  induction s generalizing n m with
  | nil => simp [Scan.find]
  | cons c s ih =>
    have hclosed : n.closed = false := by simp [Nest.closed, hn]
    have hnext : Scan.find Nest.advance (fun n rest => n.closed && rest.head? == some '=') (n.advance c) (s ++ ['}']) =
        none := by
      have hbrace := advance_brace n c
      rw [closesOwn] at hs
      split at hs
      · rename_i hopen
        rw [if_pos hopen, hn] at hbrace
        exact ih hbrace hs
      · rename_i hopen
        rw [if_neg hopen] at hbrace
        split at hs
        · rename_i hclose
          rw [if_pos hclose, hn, Nat.add_sub_cancel] at hbrace
          rw [Bool.and_eq_true] at hs
          have hm : 0 < m := Nat.pos_of_ne_zero (by simpa using hs.1)
          exact ih (hbrace.trans (Nat.sub_add_cancel hm).symm) hs.2
        · rename_i hclose
          rw [if_neg hclose, hn] at hbrace
          exact ih hbrace hs
    rw [List.cons_append, Scan.find, hnext, hclosed]
    rfl

theorem topLevelChar_block {body : Text} (h : closesOwn 0 body = true) : topLevelChar ('{' :: (body ++ ['}'])) '=' = none := by
  have hinside := find_inside (n := Nest.advance {} '{') rfl h
  rw [topLevelChar, Scan.find, hinside]
  rfl

theorem topLevelChar_dollar (s : Text) (hc : c ≠ '$') :
    topLevelChar ('$' :: s) c = (topLevelChar s c).map (· + 1) := by
  have hdollar : (List.head? ('$' :: s) == some c) = false := by simpa using Ne.symm hc
  rw [topLevelChar, Scan.find, hdollar]
  rfl

theorem trim_dollar (h : ∀ c ∈ s.head?, isSpace c = false) : trim ('$' :: s) = '$' :: trim s := by
  have hdrop : ('$' :: s).dropWhile isSpace = '$' :: s := rfl
  have hrdrop : ∀ t : Text, ('$' :: t).rdropWhile isSpace = '$' :: t.rdropWhile isSpace := by
    intro t
    induction t using List.reverseRecOn with
    | nil => rfl
    | append_singleton t c ih =>
      rw [← List.cons_append]
      by_cases hc : isSpace c = true
      · rw [List.rdropWhile_concat_pos _ _ c hc, List.rdropWhile_concat_pos _ _ c hc, ih]
      · rw [List.rdropWhile_concat_neg _ _ c hc, List.rdropWhile_concat_neg _ _ c hc, List.cons_append]
  rw [trim, trim, hdrop, dropWhile_of_head h, hrdrop]
  cases hs : s.rdropWhile isSpace with
  | nil => rfl
  | cons c t =>
    rw [List.getLast?_cons_cons, List.dropLast_cons_cons, hrdrop]
    split <;> rfl

theorem head_trim (h : ∀ c ∈ s.head?, isSpace c = false) (hc : c ∈ (trim s).head?) : c ∈ s.head? := by
  have htrim : trim s <+: s := by
    rw [trim, dropWhile_of_head h]
    split
    · exact (List.rdropWhile_prefix _ _).trans ((List.dropLast_prefix _).trans (List.rdropWhile_prefix _ _))
    · exact List.rdropWhile_prefix _ _
  obtain ⟨rest, hrest⟩ := htrim
  rw [← hrest, List.head?_append, hc]
  rfl

theorem head_take {n : Nat} (hc : c ∈ (s.take n).head?) : c ∈ s.head? := by
  cases s with
  | nil => rw [List.take_nil] at hc; exact hc
  | cons d s =>
    cases n with
    | zero => cases hc
    | succ n => exact hc

def nameFirst (s : Text) : Prop := ∀ c ∈ s.head?, isSpace c = false ∧ c ≠ '$'

theorem nameFirst.take (h : nameFirst s) (n : Nat) : nameFirst (s.take n) := fun c hc => h c (head_take hc)

theorem nameFirst.trim {s : Text} (h : nameFirst s) : nameFirst (trim s) :=
  fun c hc => h c (head_trim (fun d hd => (h d hd).1) hc)

theorem nameFirst.trim_dollar (h : nameFirst s) : Document.trim ('$' :: s) = '$' :: Document.trim s :=
  Document.trim_dollar fun c hc => (h c hc).1

theorem nameFirst.no_dollar (h : nameFirst s) : s.head? ≠ some '$' := fun hhead => (h '$' hhead).2 rfl

theorem splitDeclHead_dollar (h : nameFirst s) (line column : Nat) :
    (Parser.splitDeclHead ('$' :: s) true line column).toOption = (Parser.splitDeclHead s true line column).toOption := by
  unfold Parser.splitDeclHead
  rw [topLevelChar_dollar s (by decide)]
  cases topLevelChar s ':' with
  | none => simp [h.trim_dollar, h.trim.no_dollar]
  | some colon =>
    simp only [Option.map_some, List.drop_succ_cons, List.take_succ_cons]
    cases typeValid (trim (s.drop (colon + 1))) with
    | false => rfl
    | true => simp [(h.take colon).trim_dollar, (h.take colon).trim.no_dollar]

theorem assignNameExpr_dollar {p : Parser D} (kind : Kind) (span : SourceSpan) (h : nameFirst s)
    (hassigns : (topLevelChar s '=').isSome = true) (offset line column : Nat) :
    (p.assignNameExpr { kind, span } ('$' :: s) true offset line column).toOption.map Node.bare =
      (p.assignNameExpr { kind, span } s true offset line column).toOption.map Node.bare := by
  obtain ⟨eq, heq⟩ := Option.isSome_iff_exists.mp hassigns
  have hdollar : topLevelChar ('$' :: s) '=' = some (eq + 1) := by
    rw [topLevelChar_dollar s (by decide), heq]
    rfl
  refine assignNameExpr_congr rfl kind span span hdollar heq rfl ?_ offset offset
  rw [List.take_succ_cons, (h.take eq).trim_dollar]
  exact splitDeclHead_dollar (h.take eq).trim line column

namespace Parser
variable {p : Parser D}

theorem parseHostStatement_eq (hmodel : p.modelExtension = true) (fuel : Nat) {l : Text} (hl : Statement l)
    (hhost : parseHostStart l = none) (start stop : Nat) :
    p.parseHostStatement fuel l start stop =
      (p.parseKeyword (p.parseHostFields fuel) ⟨start, p.span start stop⟩ l).map ([·]) := by
  rw [parseHostStatement, hl.trimmed.trim_eq, hl.trimmed.trim_eq, hhost]
  dsimp only
  rw [parseStatement, hl.trimmed.trim_eq, hl.trimmed.trim_eq, hl.nonblank, hmodel]
  cases p.parseKeyword (p.parseHostFields fuel) ⟨start, p.span start stop⟩ l <;> rfl

theorem parseHostStart_reserved {line : Text}
    (h : reservedHostKind (line.takeWhile fun c => c.isAlphanum || c == '_') = true) : parseHostStart line = none := by
  cases line with
  | nil => rfl
  | cons c line =>
    simp only [parseHostStart, h, if_true]
    cases strchr (c :: line) '{' <;> simp

theorem parseHostStart_word {k : DeclKind} (hk : k ≠ .param) (rest : Text) :
    parseHostStart (k.word ++ ' ' :: rest) = none := by
  refine parseHostStart_reserved ?_
  cases k with
  | param => exact absurd rfl hk
  | state => rfl
  | input => rfl
  | output => rfl

variable (hf : Text → Nat → Parsed (List (Node D))) (at_ : Place)

variable {rest : Text} (hrest : ∀ c ∈ rest.head?, isSpace c = false)
include hrest

theorem keyword_word (word : Text) : keyword (word ++ ' ' :: rest) word = some rest := by
  have hhere : word.isPrefixOf (word ++ ' ' :: rest) = true := by simp
  have hspace : isSpace ' ' = true := rfl
  rw [keyword, if_pos hhere, List.drop_left]
  dsimp only
  rw [if_pos hspace, List.dropWhile_cons_of_pos hspace, dropWhile_of_head hrest]

theorem parseKeyword_input : ∃ offset, p.parseKeyword hf at_ (DeclKind.input.word ++ ' ' :: rest) = p.parseInput at_ rest offset := by
  have hword : keyword (DeclKind.input.word ++ ' ' :: rest) "in".toList = some rest := keyword_word hrest _
  have hmodel : keyword (DeclKind.input.word ++ ' ' :: rest) "model".toList = none := rfl
  have huse : keyword (DeclKind.input.word ++ ' ' :: rest) "use".toList = none := rfl
  unfold parseKeyword
  rw [hmodel, huse, hword]
  exact ⟨_, rfl⟩

theorem parseKeyword_state : ∃ offset, p.parseKeyword hf at_ (DeclKind.state.word ++ ' ' :: rest) = p.parseState at_ rest offset := by
  have hword : keyword (DeclKind.state.word ++ ' ' :: rest) "state".toList = some rest := keyword_word hrest _
  have hmodel : keyword (DeclKind.state.word ++ ' ' :: rest) "model".toList = none := rfl
  have huse : keyword (DeclKind.state.word ++ ' ' :: rest) "use".toList = none := rfl
  have hin : keyword (DeclKind.state.word ++ ' ' :: rest) "in".toList = none := rfl
  unfold parseKeyword
  rw [hmodel, huse, hin, hword]
  exact ⟨_, rfl⟩

theorem parseKeyword_output : ∃ offset, p.parseKeyword hf at_ (DeclKind.output.word ++ ' ' :: rest) = p.parseOutput at_ rest offset := by
  have hword : keyword (DeclKind.output.word ++ ' ' :: rest) "out".toList = some rest := keyword_word hrest _
  have hmodel : keyword (DeclKind.output.word ++ ' ' :: rest) "model".toList = none := rfl
  have huse : keyword (DeclKind.output.word ++ ' ' :: rest) "use".toList = none := rfl
  have hin : keyword (DeclKind.output.word ++ ' ' :: rest) "in".toList = none := rfl
  have hstate : keyword (DeclKind.output.word ++ ' ' :: rest) "state".toList = none := rfl
  unfold parseKeyword
  rw [hmodel, huse, hin, hstate, hword]
  exact ⟨_, rfl⟩

omit hrest

end Parser

def Node.flat (node : Node D) : List (Node D) :=
  match node.kind with
  | .paramBlock | .stateBlock | .outputBlock => node.children
  | .inputBlock => if (node.name.getD []).isEmpty then node.children else [node]
  | _ => [node]

def Node.declarations (node : Node D) : List (Node D) := node.flat.map Node.bare

namespace Parser
variable {p : Parser D} (hf : Text → Nat → Parsed (List (Node D))) (at_ : Place)

theorem declarations_entries (k : DeclKind) (body : Text) (offset : Nat) {node : List (Node D) → Node D}
    (hnode : ∀ children, (node children).declarations = children.map Node.bare) :
    (p.parseCommaOrLineDecls k.kind body offset (k == .param) >>= fun children => pure (node children)).toOption.map
      Node.declarations = (entries body).mapM (declNode p.exprAstParse k) := by
  rw [← parseCommaOrLineDecls_entries p k body offset]
  cases p.parseCommaOrLineDecls k.kind body offset (k == .param) with
  | error e => rfl
  | ok children => exact congrArg some (hnode children)

theorem not_call {rest : Text} (h : '(' ∈ rest → '=' ∈ rest) :
    ((strchr rest '(').isSome && (strchr rest '=').isNone) = false := by
  by_cases hcall : '(' ∈ rest
  · have heq := strchr_isSome (h hcall)
    rw [← Option.not_isSome, heq, Bool.not_true, Bool.and_false]
  · rw [strchr_eq_none hcall]
    rfl

theorem parseKeyword_block {k : DeclKind} {body : Text} (hinput : k = .input → closesOwn 0 body = true)
    (hupdate : k = .output → strstr ('{' :: (body ++ ['}'])) [':', '='] = none)
    (hequals : k = .output → '(' ∈ body → '=' ∈ body) :
    (p.parseKeyword hf at_ (k.word ++ ' ' :: '{' :: (body ++ ['}']))).toOption.map Node.declarations =
      (entries body).mapM (declNode p.exprAstParse k) := by
  have hbrace : ∀ c ∈ ('{' :: (body ++ ['}'])).head?, isSpace c = false := by
    intro c hc
    cases hc
    rfl
  have hopen : (strchr ('{' :: (body ++ ['}'])) '{').isSome = true := rfl
  cases k with
  | param =>
    have hclose : strrchr ('{' :: (body ++ ['}'])) '}' = some (body.length + 1) := strrchr_concat ('{' :: body) '}'
    have hafter : (('$' :: ' ' :: '{' :: (body ++ ['}'])).drop 1).dropWhile isSpace = '{' :: (body ++ ['}']) := rfl
    show (p.parseParam at_ ('$' :: ' ' :: '{' :: (body ++ ['}']))).toOption.map _ = _
    unfold parseParam
    rw [hafter]
    dsimp only
    rw [hclose]
    dsimp only
    rw [between_block]
    exact declarations_entries .param body _ fun _ => rfl
  | state =>
    obtain ⟨offset, hparse⟩ := parseKeyword_state hf at_ hbrace
    rw [hparse, parseState, if_pos hopen, braces_block]
    dsimp only
    rw [between_block]
    exact declarations_entries .state body _ fun _ => rfl
  | input =>
    obtain ⟨offset, hparse⟩ := parseKeyword_input hf at_ hbrace
    rw [hparse, parseInput, hopen, topLevelChar_block (hinput rfl), braces_block]
    dsimp only
    rw [between_block]
    exact declarations_entries .input body _ fun _ => rfl
  | output =>
    obtain ⟨offset, hparse⟩ := parseKeyword_output hf at_ hbrace
    have hcall : ((strchr ('{' :: (body ++ ['}'])) '(').isSome && (strchr ('{' :: (body ++ ['}'])) '=').isNone) = false :=
      not_call fun hmem => by
        simp only [List.mem_cons, List.mem_append] at hmem ⊢
        rcases hmem with h | hmem | h | h
        · cases h
        · exact .inr (.inl (hequals rfl hmem))
        · cases h
        · cases h
    have hnone : strstr ('{' :: (body ++ ['}'])) ":=".toList = none := hupdate rfl
    rw [hparse, parseOutput, hnone, hcall, braces_block]
    dsimp only
    rw [between_block]
    exact declarations_entries .output body _ fun _ => rfl

theorem assignNameExpr_declNode {k : DeclKind} (hk : k ≠ .input) {d : Text} (hd : IsDeclaration k d) (span : SourceSpan)
    (offset line column : Nat) :
    (p.assignNameExpr { kind := k.kind, span } d (k == .param) offset line column).toOption.map Node.bare =
      declNode p.exprAstParse k d := by
  obtain ⟨eq, heq⟩ := Option.isSome_iff_exists.mp hd.assigns
  have hp : p.exprAstParse = (nowhere p.exprAstParse).exprAstParse := rfl
  have hdecl : (nowhere p.exprAstParse).parseDecl k.kind (k == .param) d 0 0 =
      (nowhere p.exprAstParse).assignNameExpr { kind := k.kind, span := (nowhere p.exprAstParse).span 0 0 } d (k == .param)
        0 ((nowhere p.exprAstParse).span 0 0).start.line (((nowhere p.exprAstParse).span 0 0).start.column + 1) := by
    unfold parseDecl
    cases k with
    | param => rfl
    | state =>
      rw [heq]
      rfl
    | input => exact absurd rfl hk
    | output =>
      rw [heq]
      rfl
  rw [declNode, hdecl]
  exact assignNameExpr_place hp _ _ _ _ _ _ _ _ _ _ _

theorem assignNameExpr_declarations (k : DeclKind) (span : SourceSpan) (s : Text) (stripParam : Bool)
    (offset line column : Nat) :
    (p.assignNameExpr { kind := k.kind, span } s stripParam offset line column).toOption.map Node.declarations =
      ((p.assignNameExpr { kind := k.kind, span } s stripParam offset line column).toOption.map Node.bare).map ([·]) := by
  cases hnode : p.assignNameExpr { kind := k.kind, span } s stripParam offset line column with
  | error e => rfl
  | ok node =>
    have hkind : node.kind = k.kind := assignNameExpr_kind hnode
    have hflat : node.flat = [node] := by
      rw [Node.flat, hkind]
      cases k <;> rfl
    show some node.declarations = some [node.bare]
    rw [Node.declarations, hflat]
    rfl

theorem parseKeyword_line {k : DeclKind} {d : Text} (hd : IsDeclaration k d) (hone : k ≠ .input → entries d = [d])
    (hbrace : k = .state ∨ k = .output → '{' ∉ d) (hupdate : k = .output → strstr d [':', '='] = none) :
    (p.parseKeyword hf at_ (k.lead ++ d)).toOption.map Node.declarations =
      (entries d).mapM (declNode p.exprAstParse k) := by
  obtain ⟨eq, heq⟩ := Option.isSome_iff_exists.mp hd.assigns
  have hequals : '=' ∈ d := mem_of_topLevelChar hd.assigns
  have hsingle : k ≠ .input → (entries d).mapM (declNode p.exprAstParse k) =
      (declNode p.exprAstParse k d).map ([·]) := by
    intro hk
    rw [hone hk, List.mapM_cons, List.mapM_nil]
    cases declNode p.exprAstParse k d <;> rfl
  cases k with
  | param =>
    obtain ⟨c, rest, rfl, hspace, -, -, -, hopen, -, hname⟩ := hd.head
    have hfirst : nameFirst (c :: rest) := by
      intro c' hc'
      cases hc'
      exact ⟨hspace, (hname (by decide)).1⟩
    have hafter : (('$' :: c :: rest).drop 1).dropWhile isSpace = c :: rest := dropWhile_of_head hd.trimmed.head
    have hblock : ((c :: rest).head? == some '{') = false := by simpa using hopen
    show (p.parseParam at_ ('$' :: c :: rest)).toOption.map _ = _
    unfold parseParam
    rw [hafter]
    dsimp only
    rw [hblock, hsingle (by decide), ← assignNameExpr_declNode (by decide) hd at_.span at_.start at_.line at_.column]
    show (p.assignNameExpr { kind := DeclKind.param.kind, span := at_.span } ('$' :: c :: rest) true at_.start at_.line
      at_.column).toOption.map _ = _
    rw [assignNameExpr_declarations, assignNameExpr_dollar _ _ hfirst hd.assigns]
    rfl
  | state =>
    obtain ⟨offset, hparse⟩ := parseKeyword_state hf at_ hd.trimmed.head
    have hopen := strchr_eq_none (hbrace (.inl rfl))
    rw [hsingle (by decide), ← assignNameExpr_declNode (by decide) hd at_.span (at_.start + offset) at_.line at_.column]
    show (p.parseKeyword hf at_ (DeclKind.state.word ++ ' ' :: d)).toOption.map _ = _
    rw [hparse, parseState, hopen, heq]
    exact assignNameExpr_declarations .state at_.span d false _ _ _
  | input =>
    obtain ⟨offset, hparse⟩ := parseKeyword_input hf at_ hd.trimmed.head
    show (p.parseKeyword hf at_ (DeclKind.input.word ++ ' ' :: d)).toOption.map _ = _
    rw [hparse, parseInput, heq]
    simp only [Option.isNone_some, Bool.and_false, Option.isSome_some, Bool.true_or, if_true]
    exact declarations_entries .input d _ fun _ => rfl
  | output =>
    obtain ⟨offset, hparse⟩ := parseKeyword_output hf at_ hd.trimmed.head
    have hopen := strchr_eq_none (hbrace (.inr rfl))
    have hnone : strstr d ":=".toList = none := hupdate rfl
    have hhead : (d.head? == some '{') = false := by
      obtain ⟨c, rest, rfl, -, -, -, -, hne, -⟩ := hd.head
      simpa using hne
    rw [hsingle (by decide), ← assignNameExpr_declNode (by decide) hd at_.span (at_.start + offset) at_.line at_.column]
    show (p.parseKeyword hf at_ (DeclKind.output.word ++ ' ' :: d)).toOption.map _ = _
    rw [hparse, parseOutput, hnone, not_call fun _ => hequals, hopen, hhead, strchr_isSome hequals]
    exact assignNameExpr_declarations .output at_.span d false _ _ _

end Parser

end Cxpr.Document
