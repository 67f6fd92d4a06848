import Cxpr.Parser.Grammar

/-! What the parser accepts derives from the grammar, with the tree that it returns. Every level takes tokens off the
    front that derive from its symbol. -/

namespace Cxpr.Parser
variable {D : Type}

def Sound (s : Sym) (p : Parse D (s.Result D)) : Prop :=
  ∀ tokens r rest, p tokens = .ok (r, rest) → ∃ t, tokens = t ++ rest ∧ Derives .arithmetic s t r

theorem parseSegments_eq_ok {message : String} {tokens rest : List (Token D)} {segments : List String}
    (h : parseSegments message tokens = .ok (segments, rest)) : tokens = segmentTokens segments ++ rest := by
  fun_induction parseSegments message tokens generalizing segments with
  | case1 name rest' ih =>
    obtain ⟨⟨names, rest''⟩, hrest, h⟩ := bind_eq_ok.mp h
    cases h
    rw [segmentTokens, ih hrest]
    rfl
  | case2 => cases h
  | case3 =>
    cases h
    rfl

section
variable {expr : Parse D (Ast D)}

theorem sound_parseCallArgument (hexpr : Sound .pipe expr) : Sound .arg (parseCallArgument expr) := by
  intro tokens r rest h
  unfold parseCallArgument at h
  split at h
  all_goals
    replace h := bind_eq_ok.mp h
    obtain ⟨⟨a, rest'⟩, ha, h⟩ := h
    cases h
    obtain ⟨t, rfl, ht⟩ := hexpr _ _ _ ha
  · exact ⟨_, rfl, .named _ ht⟩
  · exact ⟨t, rfl, .positional ht⟩

theorem sound_parseArguments (hexpr : Sound .pipe expr) (fuel : Nat) : Sound .args (parseArguments expr fuel) := by
  induction fuel with
  | zero =>
    intro tokens r rest h
    cases h
  | succ fuel ih =>
    intro tokens r rest h
    replace h := bind_eq_ok.mp h
    obtain ⟨⟨x, rest'⟩, hx, h⟩ := h
    obtain ⟨t, rfl, ht⟩ := sound_parseCallArgument hexpr _ _ _ hx
    simp only at h
    split at h
    · replace h := bind_eq_ok.mp h
      obtain ⟨⟨xs, rest''⟩, hxs, h⟩ := h
      cases h
      obtain ⟨t', rfl, ht'⟩ := ih _ _ _ hxs
      exact ⟨t ++ Token.comma :: t', by simp, .moreArgs ht ht'⟩
    · cases h
      exact ⟨t ++ [Token.rparen], by simp, .lastArg ht⟩
    · cases h

theorem sound_parseArgList (hexpr : Sound .pipe expr) (fuel : Nat) : Sound .argList (parseArgList expr fuel) := by
  intro tokens r rest h
  unfold parseArgList at h
  split at h
  · cases h
    exact ⟨[.rparen], rfl, .noArgs⟩
  · obtain ⟨t, rfl, ht⟩ := sound_parseArguments hexpr fuel _ _ _ h
    exact ⟨t, rfl, .someArgs ht⟩

theorem sound_parseElements (hexpr : Sound .pipe expr) (fuel : Nat) : Sound .elements (parseElements expr fuel) := by
  induction fuel with
  | zero =>
    intro tokens r rest h
    cases h
  | succ fuel ih =>
    intro tokens r rest h
    replace h := bind_eq_ok.mp h
    obtain ⟨⟨e, rest'⟩, he, h⟩ := h
    obtain ⟨t, rfl, ht⟩ := hexpr _ _ _ he
    simp only at h
    split at h
    · replace h := bind_eq_ok.mp h
      obtain ⟨⟨es, rest''⟩, hes, h⟩ := h
      cases h
      obtain ⟨t', rfl, ht'⟩ := ih _ _ _ hes
      exact ⟨t ++ Token.comma :: t', by simp, .moreElements ht ht'⟩
    · cases h
      exact ⟨t ++ [Token.rbracket], by simp, .lastElement ht⟩
    · cases h

theorem sound_parseField (hexpr : Sound .pipe expr) : Sound .field (parseField expr) := by
  intro tokens r rest h
  unfold parseField at h
  split at h
  · replace h := bind_eq_ok.mp h
    obtain ⟨⟨a, rest'⟩, ha, h⟩ := h
    cases h
    obtain ⟨t, rfl, ht⟩ := hexpr _ _ _ ha
    exact ⟨_, rfl, .assigned _ ht⟩
  · replace h := bind_eq_ok.mp h
    obtain ⟨⟨a, rest'⟩, ha, h⟩ := h
    cases h
    obtain ⟨t, rfl, ht⟩ := hexpr _ _ _ ha
    exact ⟨_, rfl, .labelled _ ht⟩
  · cases h
    exact ⟨_, rfl, .punned _⟩
  · cases h

theorem sound_parseFields (hexpr : Sound .pipe expr) (fuel : Nat) : Sound .fields (parseFields expr fuel) := by
  induction fuel with
  | zero =>
    intro tokens r rest h
    cases h
  | succ fuel ih =>
    intro tokens r rest h
    replace h := bind_eq_ok.mp h
    obtain ⟨⟨x, rest'⟩, hx, h⟩ := h
    obtain ⟨t, rfl, ht⟩ := sound_parseField hexpr _ _ _ hx
    simp only at h
    split at h
    · replace h := bind_eq_ok.mp h
      obtain ⟨⟨xs, rest''⟩, hxs, h⟩ := h
      cases h
      obtain ⟨t', rfl, ht'⟩ := ih _ _ _ hxs
      exact ⟨t ++ Token.comma :: t', by simp, .moreFields ht ht'⟩
    · cases h
      exact ⟨t ++ [Token.rbrace], by simp, .lastField ht⟩
    · cases h

theorem sound_parseAtom (hexpr : Sound .pipe expr) (fuel : Nat) : Sound .atom (parseAtom expr fuel) := by
  intro tokens r rest h
  unfold parseAtom at h
  split at h
  · cases h
    exact ⟨_, rfl, .number _⟩
  · cases h
    exact ⟨_, rfl, .int64 _⟩
  · cases h
    exact ⟨_, rfl, .bool _⟩
  · cases h
    exact ⟨_, rfl, .string _⟩
  · replace h := bind_eq_ok.mp h
    obtain ⟨⟨segments, rest'⟩, hsegments, h⟩ := h
    cases h
    rw [parseSegments_eq_ok hsegments]
    exact ⟨_, rfl, .param _ segments⟩
  · rename_i name rest₀
    replace h := bind_eq_ok.mp h
    obtain ⟨⟨segments, rest'⟩, hsegments, h⟩ := h
    rw [parseSegments_eq_ok hsegments]
    simp only at h
    split at h
    · replace h := bind_eq_ok.mp h
      obtain ⟨⟨args, rest''⟩, hargs, h⟩ := h
      obtain ⟨t, rfl, ht⟩ := sound_parseArgList hexpr fuel _ _ _ hargs
      simp only [parseCallField] at h
      split at h
      · cases h
        exact ⟨_, by simp, .producer name segments _ ht⟩
      · cases h
      · cases h
        exact ⟨_, by simp, .call name segments ht⟩
    · cases h
      exact ⟨_, rfl, .path name segments⟩
  · replace h := bind_eq_ok.mp h
    obtain ⟨⟨a, rest'⟩, ha, h⟩ := h
    obtain ⟨t, rfl, ht⟩ := hexpr _ _ _ ha
    simp only at h
    split at h
    · simp only [parseGroupField] at h
      split at h
      · cases h
        exact ⟨_, by simp, .groupField _ ht⟩
      · cases h
      · cases h
        exact ⟨_, by simp, .group ht⟩
    · cases h
  · replace h := bind_eq_ok.mp h
    obtain ⟨⟨es, rest'⟩, hes, h⟩ := h
    cases h
    unfold parseArrayLiteral at hes
    split at hes
    · cases hes
      exact ⟨_, rfl, .emptyArray⟩
    · obtain ⟨t, rfl, ht⟩ := sound_parseElements hexpr fuel _ _ _ hes
      exact ⟨_, rfl, .array ht⟩
  · replace h := bind_eq_ok.mp h
    obtain ⟨⟨fs, rest'⟩, hfs, h⟩ := h
    cases h
    unfold parseRecordLiteral at hfs
    split at hfs
    · cases hfs
      exact ⟨_, rfl, .emptyRecord⟩
    · obtain ⟨t, rfl, ht⟩ := sound_parseFields hexpr fuel _ _ _ hfs
      exact ⟨_, rfl, .record ht⟩
  · cases h

variable {fuel : Nat} {r : Ast D} {t tokens rest : List (Token D)} {operand : Parse D (Ast D)}

theorem sound_indexLoop (hexpr : Sound .pipe expr) {node : Ast D}
    (ht : Derives .arithmetic .primary t node) (h : indexLoop expr fuel node tokens = .ok (r, rest)) :
    ∃ t', tokens = t' ++ rest ∧ Derives .arithmetic .primary (t ++ t') r := by
  induction fuel generalizing node t tokens with
  | zero => cases h
  | succ fuel ih =>
    unfold indexLoop at h
    split at h
    · replace h := bind_eq_ok.mp h
      obtain ⟨⟨i, rest'⟩, hi, h⟩ := h
      obtain ⟨ti, rfl, hti⟩ := hexpr _ _ _ hi
      simp only at h
      split at h
      · obtain ⟨t', rfl, ht'⟩ := ih (.index ht hti) h
        exact ⟨Token.lbracket :: (ti ++ [Token.rbracket]) ++ t', by simp, by simpa using ht'⟩
      · cases h
    · cases h
      exact ⟨[], rfl, by simpa using ht⟩

theorem sound_parsePrimary (hexpr : Sound .pipe expr) (fuel : Nat) : Sound .primary (parsePrimary expr fuel) := by
  intro tokens r rest h
  replace h := bind_eq_ok.mp h
  obtain ⟨⟨node, rest'⟩, hnode, h⟩ := h
  obtain ⟨t, rfl, ht⟩ := sound_parseAtom hexpr fuel _ _ _ hnode
  obtain ⟨t', rfl, ht'⟩ := sound_indexLoop hexpr (.atom ht) h
  exact ⟨t ++ t', by simp, ht'⟩

theorem sound_parsePower (hexpr : Sound .pipe expr) {unary : Parse D (Ast D)} (hunary : Sound .unary unary) (fuel : Nat) :
    Sound .power (parsePower expr unary fuel) := by
  intro tokens r rest h
  replace h := bind_eq_ok.mp h
  obtain ⟨⟨left, rest'⟩, hleft, h⟩ := h
  obtain ⟨t, rfl, ht⟩ := sound_parsePrimary hexpr fuel _ _ _ hleft
  simp only at h
  split at h
  · replace h := bind_eq_ok.mp h
    obtain ⟨⟨right, rest''⟩, hright, h⟩ := h
    cases h
    obtain ⟨t', rfl, ht'⟩ := hunary _ _ _ hright
    exact ⟨_, by simp, .power ht ht'⟩
  · cases h
    exact ⟨t, rfl, .base ht⟩

theorem sound_parseUnary (hexpr : Sound .pipe expr) (fuel : Nat) : Sound .unary (parseUnary expr fuel) := by
  induction fuel with
  | zero =>
    intro tokens r rest h
    cases h
  | succ fuel ih =>
    intro tokens r rest h
    unfold parseUnary at h
    split at h
    · replace h := bind_eq_ok.mp h
      obtain ⟨⟨a, rest'⟩, ha, h⟩ := h
      cases h
      obtain ⟨t, rfl, ht⟩ := ih _ _ _ ha
      exact ⟨_, rfl, .minus ht⟩
    · obtain ⟨t, rfl, ht⟩ := ih _ _ _ h
      exact ⟨_, rfl, .plus ht⟩
    · obtain ⟨t, rfl, ht⟩ := sound_parsePower hexpr ih (fuel + 1) _ _ _ h
      exact ⟨t, rfl, .unsigned ht⟩

theorem sound_parseLeft {accepts : BinaryOp → Bool} {P Q : List (Token D) → Ast D → Prop}
    (hoperand : ∀ tokens a rest, operand tokens = .ok (a, rest) → ∃ t, tokens = t ++ rest ∧ Q t a)
    (hbase : ∀ t a, Q t a → P t a)
    (hstep : ∀ t a t' b op, accepts op = true → P t a → Q t' b → P (t ++ Token.op op :: t') (.binary op a b))
    (fuel : Nat) (h : parseLeft accepts operand fuel tokens = .ok (r, rest)) :
    ∃ t, tokens = t ++ rest ∧ P t r := by
  have hloop : ∀ fuel t left tokens, P t left → leftLoop accepts operand fuel left tokens = .ok (r, rest) →
      ∃ t', tokens = t' ++ rest ∧ P (t ++ t') r := by
    intro fuel
    induction fuel with
    | zero =>
      intro t left tokens ht h
      cases h
    | succ fuel ih =>
      intro t left tokens ht h
      unfold leftLoop at h
      split at h
      · rename_i op rest₀
        split at h
        · rename_i hop
          replace h := bind_eq_ok.mp h
          obtain ⟨⟨right, rest'⟩, hright, h⟩ := h
          obtain ⟨tr, rfl, htr⟩ := hoperand _ _ _ hright
          obtain ⟨t', rfl, ht'⟩ := ih _ _ _ (hstep _ _ _ _ _ hop ht htr) h
          exact ⟨.op op :: tr ++ t', by simp, by simpa using ht'⟩
        · cases h
          exact ⟨[], rfl, by simpa using ht⟩
      · cases h
        exact ⟨[], rfl, by simpa using ht⟩
  replace h := bind_eq_ok.mp h
  obtain ⟨⟨left, rest'⟩, hleft, h⟩ := h
  obtain ⟨t, rfl, ht⟩ := hoperand _ _ _ hleft
  obtain ⟨t', rfl, ht'⟩ := hloop fuel t left rest' (hbase _ _ ht) h
  exact ⟨t ++ t', by simp, ht'⟩

theorem sound_parseTerm (hexpr : Sound .pipe expr) (fuel : Nat) : Sound .term (parseTerm expr fuel) :=
  fun _ _ _ h => sound_parseLeft (sound_parseUnary hexpr fuel) (fun _ _ => .factor) (fun _ _ _ _ _ => .term) fuel h

theorem sound_parseArithmetic (hexpr : Sound .pipe expr) (fuel : Nat) : Sound .arithmetic (parseArithmetic expr fuel) :=
  fun _ _ _ h =>
    sound_parseLeft (sound_parseTerm hexpr fuel) (fun _ _ => .summand) (fun _ _ _ _ _ => .arithmetic) fuel h

theorem sound_chainLoop (hoperand : Sound .arithmetic operand) {c : Chain D} (ht : Derives .arithmetic .chain t c)
    (h : chainLoop operand fuel c tokens = .ok (r, rest)) :
    ∃ t', tokens = t' ++ rest ∧ Derives .arithmetic .relational (t ++ t') r := by
  induction fuel generalizing c t tokens with
  | zero => cases h
  | succ fuel ih =>
    unfold chainLoop at h
    split at h
    · rename_i op rest₀
      split at h
      · rename_i hop
        replace h := bind_eq_ok.mp h
        obtain ⟨⟨right, rest'⟩, hright, h⟩ := h
        obtain ⟨tr, rfl, htr⟩ := hoperand _ _ _ hright
        obtain ⟨t', rfl, ht'⟩ := ih (.compareNext hop ht htr) h
        exact ⟨.op op :: tr ++ t', by simp, by simpa using ht'⟩
      · cases h
        exact ⟨[], rfl, by simpa using Derives.chained ht⟩
    · cases h
      exact ⟨[], rfl, by simpa using Derives.chained ht⟩

theorem Derives.ne_nil {form : SetForm} {s : Sym} {r : s.Result D} (h : Derives form s t r) : t ≠ [] := by
  induction h <;> simp_all

theorem startsSet_of_append (h : StartsSet (t ++ rest)) (hne : t ≠ [])
    (hone : t ≠ [.lbracket]) : StartsSet t := by
  match t with
  | [] => exact absurd rfl hne
  | [x] => cases x <;> simp_all [StartsSet]
  | x :: y :: t => cases x <;> cases y <;> simp_all [StartsSet]

theorem Derives.ne_lbracket {form : SetForm} {s : Sym} {r : s.Result D} (h : Derives form s t r) : t ≠ [.lbracket] := by
  intro ht
  induction h with
  | array h | literal _ h => exact h.ne_nil (by simpa using ht)
  | _ => simp_all [List.append_eq_cons_iff]

theorem startsSet_lbracket (h : ∀ tail, rest ≠ .rbracket :: tail) :
    StartsSet (.lbracket :: rest) := by
  match rest with
  | [] => trivial
  | x :: rest => cases x <;> simp_all [StartsSet]

theorem sound_parseSetMembership (hoperand : Sound .arithmetic operand) {left : Ast D}
    {negated : Bool} (h : parseSetMembership operand left negated tokens = .ok (r, rest)) :
    ∃ t a, tokens = t ++ rest ∧ Derives .arithmetic .set t a ∧ r = membership negated left a := by
  unfold parseSetMembership at h
  split at h
  · cases h
  · rename_i rest₀ hset
    replace h := bind_eq_ok.mp h
    obtain ⟨⟨array, rest'⟩, harray, h⟩ := h
    cases h
    obtain ⟨t, htokens, ht⟩ := hoperand _ _ _ harray
    have hstarts : StartsSet (t ++ rest) := htokens ▸ startsSet_lbracket hset
    exact ⟨t, array, htokens, .setOperand rfl ht (startsSet_of_append hstarts ht.ne_nil ht.ne_lbracket), rfl⟩
  · cases h

theorem sound_parseRelational (hexpr : Sound .pipe expr) (fuel : Nat) :
    Sound .relational (parseRelational expr fuel) := by
  intro tokens r rest h
  have hoperand := sound_parseArithmetic hexpr fuel
  replace h := bind_eq_ok.mp h
  obtain ⟨⟨left, rest'⟩, hleft, h⟩ := h
  obtain ⟨t, rfl, ht⟩ := hoperand _ _ _ hleft
  simp only at h
  split at h
  · rename_i op rest₀
    split at h
    · rename_i hop
      replace h := bind_eq_ok.mp h
      obtain ⟨⟨right, rest''⟩, hright, h⟩ := h
      obtain ⟨tr, rfl, htr⟩ := hoperand _ _ _ hright
      obtain ⟨t', rfl, ht'⟩ := sound_chainLoop hoperand (.compare hop ht htr) h
      exact ⟨t ++ Token.op op :: tr ++ t', by simp, by simpa using ht'⟩
    · cases h
      exact ⟨t, rfl, .operand ht⟩
  · obtain ⟨t', a, rfl, ht', rfl⟩ := sound_parseSetMembership hoperand h
    exact ⟨t ++ Token.not :: Token.kwIn :: t', by simp, .notMember ht ht'⟩
  · obtain ⟨t', a, rfl, ht', rfl⟩ := sound_parseSetMembership hoperand h
    exact ⟨t ++ Token.kwIn :: t', by simp, .member ht ht'⟩
  · cases h
    exact ⟨t, rfl, .operand ht⟩

theorem sound_parseEquality (hexpr : Sound .pipe expr) (fuel : Nat) : Sound .equality (parseEquality expr fuel) := by
  intro tokens r rest h
  replace h := bind_eq_ok.mp h
  obtain ⟨⟨left, rest'⟩, hleft, h⟩ := h
  obtain ⟨t, rfl, ht⟩ := sound_parseRelational hexpr fuel _ _ _ hleft
  simp only at h
  split at h
  · rename_i op rest₀
    split at h
    · rename_i hop
      replace h := bind_eq_ok.mp h
      obtain ⟨⟨right, rest''⟩, hright, h⟩ := h
      cases h
      obtain ⟨t', rfl, ht'⟩ := sound_parseRelational hexpr fuel _ _ _ hright
      exact ⟨t ++ Token.op op :: t', by simp, .equality hop ht ht'⟩
    · cases h
      exact ⟨t, rfl, .single ht⟩
  · cases h
    exact ⟨t, rfl, .single ht⟩

theorem sound_parseNot (hexpr : Sound .pipe expr) (bound fuel : Nat) : Sound .not (parseNot expr bound fuel) := by
  induction fuel with
  | zero =>
    intro tokens r rest h
    cases h
  | succ fuel ih =>
    intro tokens r rest h
    unfold parseNot at h
    split at h
    · replace h := bind_eq_ok.mp h
      obtain ⟨⟨a, rest'⟩, ha, h⟩ := h
      cases h
      obtain ⟨t, rfl, ht⟩ := ih _ _ _ ha
      exact ⟨_, rfl, .not ht⟩
    · obtain ⟨t, rfl, ht⟩ := sound_parseEquality hexpr bound _ _ _ h
      exact ⟨t, rfl, .plain ht⟩

theorem sound_parseAnd (hexpr : Sound .pipe expr) (fuel : Nat) : Sound .and (parseAnd expr fuel) := by
  intro tokens r rest h
  refine sound_parseLeft (sound_parseNot hexpr fuel fuel) (fun _ _ => .conjunct) ?_ fuel h
  intro t a t' b op hop ha hb
  obtain rfl := eq_of_beq hop
  exact .and ha hb

theorem sound_parseOr (hexpr : Sound .pipe expr) (fuel : Nat) : Sound .or (parseOr expr fuel) := by
  intro tokens r rest h
  refine sound_parseLeft (sound_parseAnd hexpr fuel) (fun _ _ => .disjunct) ?_ fuel h
  intro t a t' b op hop ha hb
  obtain rfl := eq_of_beq hop
  exact .or ha hb

/-! ### Pipes

The last branch of a conditional takes every stage behind it, so that a pipe in front of `|>` is never a conditional. -/

def SoundExpression (expr : Parse D (Ast D)) : Prop :=
  ∀ tokens a rest, expr tokens = .ok (a, rest) →
    (∃ t, tokens = t ++ rest ∧ Derives .arithmetic .pipe t a) ∧ rest.head? ≠ some .pipe

theorem SoundExpression.sound (h : SoundExpression expr) : Sound .pipe expr :=
  fun tokens a rest heq => (h tokens a rest heq).1

theorem sound_parseTernary (hexpr : SoundExpression expr)
    (h : parseTernary expr fuel tokens = .ok (r, rest)) :
    (∃ t, tokens = t ++ rest ∧ Derives .arithmetic .or t r) ∨
      (∃ t c a b, tokens = t ++ rest ∧ Derives .arithmetic .ternary t r ∧ r = .ternary c a b ∧ rest.head? ≠ some .pipe) := by
  replace h := bind_eq_ok.mp h
  obtain ⟨⟨c, rest'⟩, hc, h⟩ := h
  obtain ⟨t, rfl, ht⟩ := sound_parseOr hexpr.sound fuel _ _ _ hc
  simp only at h
  split at h
  · right
    replace h := bind_eq_ok.mp h
    obtain ⟨⟨a, rest''⟩, ha, h⟩ := h
    obtain ⟨⟨ta, rfl, hta⟩, -⟩ := hexpr _ _ _ ha
    simp only at h
    split at h
    · replace h := bind_eq_ok.mp h
      obtain ⟨⟨b, rest₃⟩, hb, h⟩ := h
      cases h
      obtain ⟨⟨tb, rfl, htb⟩, hend⟩ := hexpr _ _ _ hb
      exact ⟨t ++ Token.question :: (ta ++ Token.colon :: tb), c, a, b, by simp, .ternary ht hta htb, rfl, hend⟩
    · cases h
  · cases h
    exact .inl ⟨t, rfl, ht⟩

theorem sound_pipeLoop (hexpr : SoundExpression expr) {bound : Nat} {left : Ast D}
    (ht : Derives .arithmetic .stages t left) (h : pipeLoop (parseTernary expr bound) fuel left tokens = .ok (r, rest)) :
    (∃ t', tokens = t' ++ rest ∧ Derives .arithmetic .stages (t ++ t') r) ∧ rest.head? ≠ some .pipe := by
  induction fuel generalizing left t tokens with
  | zero => cases h
  | succ fuel ih =>
    unfold pipeLoop at h
    split at h
    · replace h := bind_eq_ok.mp h
      obtain ⟨⟨s, rest'⟩, hs, h⟩ := h
      replace h := bind_eq_ok.mp h
      obtain ⟨node, hnode, h⟩ := h
      rcases sound_parseTernary hexpr hs with ⟨ts, rfl, hts⟩ | ⟨ts, c, a, b, -, -, rfl, -⟩
      · obtain ⟨⟨t', rfl, ht'⟩, hend⟩ := ih (.stage ht hts hnode) h
        exact ⟨⟨Token.pipe :: ts ++ t', by simp, by simpa using ht'⟩, hend⟩
      · cases hnode
    · rename_i hpipe
      cases h
      refine ⟨⟨[], rfl, by simpa using ht⟩, ?_⟩
      intro hhead
      obtain ⟨rest₀, rfl⟩ := List.head?_eq_some_iff.mp hhead
      exact hpipe _ rfl

theorem soundExpression_parsePipe (hexpr : SoundExpression expr) (fuel : Nat) :
    SoundExpression (parsePipe expr fuel) := by
  intro tokens r rest h
  replace h := bind_eq_ok.mp h
  obtain ⟨⟨left, rest'⟩, hleft, h⟩ := h
  rcases sound_parseTernary hexpr hleft with ⟨t, rfl, ht⟩ | ⟨t, c, a, b, rfl, ht, -, hend⟩
  · obtain ⟨⟨t', rfl, ht'⟩, hend⟩ := sound_pipeLoop hexpr (.head ht) h
    exact ⟨⟨t ++ t', by simp, .piped ht'⟩, hend⟩
  · have hdone : left = r ∧ rest' = rest := by
      cases fuel with
      | zero => cases h
      | succ fuel =>
        simp only [pipeLoop] at h
        split at h
        · exact absurd rfl hend
        · cases h
          exact ⟨rfl, rfl⟩
    obtain ⟨rfl, rfl⟩ := hdone
    exact ⟨⟨t, rfl, .pipe ht⟩, hend⟩

end

theorem soundExpression_parseExpression (fuel : Nat) : SoundExpression (parseExpression (D := D) fuel) := by
  induction fuel with
  | zero =>
    intro tokens r rest h
    cases h
  | succ fuel ih => exact soundExpression_parsePipe ih (fuel + 1)

theorem derives_of_exprAstParse {tokens : List (Token D)} {a : Ast D} (h : exprAstParse tokens = .ok a) :
    Derives .arithmetic .pipe tokens a := by
  replace h := bind_eq_ok.mp h
  obtain ⟨⟨ast, rest⟩, hast, h⟩ := h
  simp only at h
  split at h
  · cases h
    obtain ⟨⟨t, rfl, ht⟩, -⟩ := soundExpression_parseExpression _ _ _ _ hast
    simpa using ht
  · cases h

end Cxpr.Parser
