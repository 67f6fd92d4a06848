import Cxpr.Parser.Sound

/-! What derives from the grammar, the parser accepts, with the tree of the derivation. Two facts decide where a level
    stops: the token that a derivation starts with, and the level at which the token behind it could go on. -/

namespace Cxpr.Parser
variable {D : Type} {form : SetForm}

def Token.startsAtom : Token D → Bool
  | .number _ | .int64 _ | .bool _ | .string _ | .param _ | .identifier _ | .lparen | .lbracket | .lbrace => true
  | _ => false

def Token.startsSigned : Token D → Bool
  | .op .plus | .op .minus => true
  | x => x.startsAtom

def Token.startsExpression : Token D → Bool
  | .not => true
  | x => x.startsSigned

def Sym.starts : Sym → Token D → Bool
  | .atom, x | .primary, x | .power, x | .fields, x | .field, x => x.startsAtom
  | .unary, x | .term, x | .arithmetic, x | .set, x | .chain, x | .relational, x | .equality, x => x.startsSigned
  | .argList, .rparen => true
  | _, x => x.startsExpression

variable {x : Token D} {t rest : List (Token D)}

theorem Token.startsSigned_of_startsAtom (h : x.startsAtom = true) : x.startsSigned = true := by
  cases x <;> simp_all [startsAtom, startsSigned]

theorem Token.startsExpression_of_startsSigned (h : x.startsSigned = true) :
    x.startsExpression = true := by
  cases x <;> simp_all [startsAtom, startsSigned, startsExpression]

theorem Derives.starts {s : Sym} {t : List (Token D)} {r : s.Result D} (h : Derives form s t r) :
    ∃ x t', t = x :: t' ∧ s.starts x = true := by
  induction h with
  | unsigned _ ih =>
    obtain ⟨x, t', rfl, hx⟩ := ih
    exact ⟨x, t', rfl, Token.startsSigned_of_startsAtom hx⟩
  | plain _ ih =>
    obtain ⟨x, t', rfl, hx⟩ := ih
    exact ⟨x, t', rfl, Token.startsExpression_of_startsSigned hx⟩
  | someArgs _ ih =>
    obtain ⟨x, t', rfl, hx⟩ := ih
    exact ⟨x, t', rfl, by cases x <;> first | rfl | exact hx⟩
  -- the symbol starts like the first symbol of its production
  | pipe _ ih | piped _ ih | head _ ih | condition _ ih | disjunct _ ih | conjunct _ ih | single _ ih | operand _ ih
  | chained _ ih | setOperand _ _ _ ih | summand _ ih | factor _ ih | base _ ih | atom _ ih | lastArg _ ih
  | positional _ ih | lastElement _ ih | lastField _ ih | stage _ _ _ ih _ | ternary _ _ _ ih _ _ | or _ _ ih _
  | and _ _ ih _ | equality _ _ _ ih _ | member _ _ ih _ | notMember _ _ ih _ | compare _ _ _ ih _
  | compareNext _ _ _ ih _ | arithmetic _ _ _ ih _ | term _ _ _ ih _ | power _ _ ih _ | index _ _ ih _
  | moreArgs _ _ ih _ | moreElements _ _ ih _ | moreFields _ _ ih _ =>
    obtain ⟨x, t', rfl, hx⟩ := ih
    exact ⟨x, _, rfl, hx⟩
  | _ => exact ⟨_, _, rfl, rfl⟩

theorem Derives.not_named {s : Sym} {r : s.Result D} (h : Derives form s t r)
    (hs : s ∉ [Sym.argList, .args, .arg, .fields, .field]) (name : String) (t' : List (Token D)) :
    t ≠ .identifier name :: .assign :: t' := by
  intro ht
  induction h generalizing t' with
  | path name' segments => cases segments <;> simp [segmentTokens] at ht
  | call name' segments | producer name' segments => cases segments <;> simp [segmentTokens] at ht
  | pipe _ ih | piped _ ih | head _ ih | condition _ ih | disjunct _ ih | conjunct _ ih | single _ ih | operand _ ih
  | plain _ ih | unsigned _ ih
  | chained _ ih | setOperand _ _ _ ih | summand _ ih | factor _ ih | base _ ih | atom _ ih => exact ih (by simp) _ ht
  | lastElement h ih | stage h _ _ ih _ | ternary h _ _ ih _ _ | or h _ ih _
  | and h _ ih _ | equality _ h _ ih _ | member h _ ih _ | notMember h _ ih _ | compare _ h _ ih _
  | compareNext _ h _ ih _ | arithmetic _ h _ ih _ | term _ h _ ih _ | power h _ ih _ | index h _ ih _
  | moreElements h _ ih _ =>
    obtain ⟨x, t₁, rfl, -⟩ := h.starts
    simp only [List.cons_append, List.cons.injEq] at ht
    obtain ⟨rfl, ht⟩ := ht
    cases t₁ with
    | nil => simp at ht
    | cons y t₁ =>
      simp only [List.cons_append, List.cons.injEq] at ht
      exact ih (by simp) t₁ (by rw [ht.1])
  | _ => simp_all

@[simp] def Token.level : Token D → Nat
  | .lparen | .dot | .assign => 1
  | .lbracket => 2
  | .op .power => 3
  | .op .star | .op .slash | .op .percent => 4
  | .op .plus | .op .minus => 5
  | .op .lt | .op .lte | .op .gt | .op .gte | .kwIn | .not => 6
  | .op .eq | .op .neq => 7
  | .op .and => 8
  | .op .or => 9
  | .question => 10
  | .pipe => 11
  | .colon => 12
  | _ => 13

def Stops (level : Nat) (rest : List (Token D)) : Prop := ∀ x ∈ rest.head?, level < x.level

@[simp] theorem stops_nil (level : Nat) : Stops level ([] : List (Token D)) := by simp [Stops]

@[simp] theorem stops_cons {level : Nat} :
    Stops level (x :: rest) ↔ level < x.level := by simp [Stops]

theorem stops_zero (rest : List (Token D)) : Stops 0 rest := by
  intro x _
  cases x with
  | op op => cases op <;> exact Nat.succ_pos _
  | _ => exact Nat.succ_pos _

theorem Stops.mono {j k : Nat} (h : Stops k rest) (hle : j ≤ k) : Stops j rest :=
  fun x hx => Nat.lt_of_le_of_lt hle (h x hx)

def Enough (n fuel : Nat) (tokens : List (Token D)) : Prop := tokens.length < fuel ∧ tokens.length ≤ n

def Reads {α : Type} (p : Nat → Nat → Parse D α) (level : Nat) (t : List (Token D)) (r : α) : Prop :=
  ∀ n fuel rest, Enough n fuel (t ++ rest) → Stops level rest → p n fuel (t ++ rest) = .ok (r, rest)

def Loops {α β : Type} (p : Nat → Nat → Parse D α) (loop : Nat → Nat → Nat → β → Parse D α) (level : Nat)
    (t : List (Token D)) (r : β) : Prop :=
  ∀ n fuel rest, Enough n fuel (t ++ rest) → Stops level rest →
    ∃ fuel', rest.length < fuel' ∧ p n fuel (t ++ rest) = loop n fuel fuel' r rest

section
variable {accepts : BinaryOp → Bool} {operand : Nat → Nat → Parse D (Ast D)} {level : Nat} {t t' : List (Token D)}
  {a b : Ast D}

theorem loops_parseLeft (h : Reads operand level t a) :
    Loops (fun n fuel => parseLeft accepts (operand n fuel) fuel) (fun n fuel => leftLoop accepts (operand n fuel)) level
      t a := by
  intro n fuel rest henough hstops
  refine ⟨fuel, by have := henough.1; simp at this; omega, ?_⟩
  simp only [parseLeft, h n fuel rest henough hstops]
  rfl

theorem Loops.parseLeft_next {op : BinaryOp} (hop : accepts op = true)
    (hlevel : level < (Token.op op : Token D).level)
    (h : Loops (fun n fuel => parseLeft accepts (operand n fuel) fuel)
      (fun n fuel => leftLoop accepts (operand n fuel)) level t a)
    (h' : Reads operand level t' b) :
    Loops (fun n fuel => parseLeft accepts (operand n fuel) fuel) (fun n fuel => leftLoop accepts (operand n fuel)) level
      (t ++ Token.op op :: t') (.binary op a b) := by
  intro n fuel rest henough hstops
  obtain ⟨fuel', hfuel', heq⟩ := h n fuel (Token.op op :: (t' ++ rest)) (by simpa using henough) (by simpa using hlevel)
  have hright : operand n fuel (t' ++ rest) = .ok (b, rest) := by
    refine h' n fuel rest ?_ hstops
    obtain ⟨h₁, h₂⟩ := henough
    simp only [List.length_append, List.length_cons] at h₁ h₂
    constructor <;> simp only [List.length_append] <;> omega
  match fuel' with
  | fuel' + 1 =>
    refine ⟨fuel', by simp at hfuel'; omega, ?_⟩
    simp only [List.append_assoc, List.cons_append] at heq ⊢
    rw [heq]
    simp only [leftLoop, hop, if_true, hright]
    rfl

theorem Loops.parseLeft_end {upper : Nat} (hle : level ≤ upper)
    (hstop : ∀ op, accepts op = true → (Token.op op : Token D).level ≤ upper)
    (h : Loops (fun n fuel => parseLeft accepts (operand n fuel) fuel)
      (fun n fuel => leftLoop accepts (operand n fuel)) level t a) :
    Reads (fun n fuel => parseLeft accepts (operand n fuel) fuel) upper t a := by
  intro n fuel rest henough hstops
  obtain ⟨fuel', hfuel', heq⟩ := h n fuel rest henough (hstops.mono hle)
  rw [heq]
  match fuel' with
  | fuel' + 1 =>
    simp only [leftLoop]
    split
    · rename_i op rest'
      split
      · rename_i hop
        have := hstop op hop
        have := stops_cons.mp hstops
        omega
      · rfl
    · rfl

end

/-- The parser of the symbol finds the derivation in front of tokens at which it stops. Where the symbol is a loop, it is
    found in front of tokens at which its operands stop. -/
def Complete (s : Sym) (t : List (Token D)) : s.Result D → Prop :=
  match s with
  | .pipe => fun a =>
    ∀ n rest, (t ++ rest).length < n → Stops 11 rest → parseExpression n (t ++ rest) = .ok (a, rest)
  | .stages =>
    Loops (fun n fuel => parsePipe (parseExpression n) fuel)
      (fun n fuel => pipeLoop (parseTernary (parseExpression n) fuel)) 10 t
  | .ternary => Reads (fun n fuel => parseTernary (parseExpression n) fuel) 11 t
  | .or =>
    Loops (fun n fuel => parseOr (parseExpression n) fuel)
      (fun n fuel => leftLoop (· == .or) (parseAnd (parseExpression n) fuel)) 8 t
  | .and =>
    Loops (fun n fuel => parseAnd (parseExpression n) fuel)
      (fun n fuel => leftLoop (· == .and) (parseNot (parseExpression n) fuel fuel)) 7 t
  | .not => fun a => ∀ n bound fuel rest, Enough n bound (t ++ rest) → (t ++ rest).length < fuel → Stops 7 rest →
    parseNot (parseExpression n) bound fuel (t ++ rest) = .ok (a, rest)
  | .equality => Reads (fun n fuel => parseEquality (parseExpression n) fuel) 7 t
  | .relational => Reads (fun n fuel => parseRelational (parseExpression n) fuel) 6 t
  | .chain =>
    Loops (fun n fuel => parseRelational (parseExpression n) fuel)
      (fun n fuel => chainLoop (parseArithmetic (parseExpression n) fuel)) 5 t
  | .set => fun a => ∀ left negated,
    Reads (fun n fuel => parseSetMembership (parseArithmetic (parseExpression n) fuel) left negated) 5 t
      (membership negated left a)
  | .arithmetic =>
    Loops (fun n fuel => parseArithmetic (parseExpression n) fuel)
      (fun n fuel => leftLoop isArithmeticOp (parseTerm (parseExpression n) fuel)) 4 t
  | .term =>
    Loops (fun n fuel => parseTerm (parseExpression n) fuel)
      (fun n fuel => leftLoop isTermOp (parseUnary (parseExpression n) fuel)) 3 t
  | .unary => Reads (fun n fuel => parseUnary (parseExpression n) fuel) 3 t
  | .power =>
    Reads (fun n fuel => parsePower (parseExpression n) (parseUnary (parseExpression n) (fuel - 1)) fuel) 3 t
  | .primary =>
    Loops (fun n fuel => parsePrimary (parseExpression n) fuel) (fun n _ => indexLoop (parseExpression n)) 1 t
  | .atom => Reads (fun n fuel => parseAtom (parseExpression n) fuel) 1 t
  | .argList => Reads (fun n fuel => parseArgList (parseExpression (n + 1)) fuel) 0 t
  | .args => Reads (fun n fuel => parseArguments (parseExpression (n + 1)) fuel) 0 t
  | .arg => Reads (fun n _ => parseCallArgument (parseExpression (n + 1))) 11 t
  | .elements => Reads (fun n fuel => parseElements (parseExpression (n + 1)) fuel) 0 t
  | .fields => Reads (fun n fuel => parseFields (parseExpression (n + 1)) fuel) 0 t
  | .field => Reads (fun n _ => parseField (parseExpression (n + 1))) 12 t

section
variable {t t' : List (Token D)} {a b : Ast D}

theorem Complete.primary_of_atom (h : Complete .atom t a) : Complete .primary t a := by
  intro n fuel rest henough hstops
  refine ⟨fuel, by have := henough.1; simp at this; omega, ?_⟩
  simp only [parsePrimary, h n fuel rest henough hstops]
  rfl

theorem Complete.primary_end (h : Complete .primary t a) :
    Reads (fun n fuel => parsePrimary (parseExpression n) fuel) 2 t a := by
  intro n fuel rest henough hstops
  obtain ⟨fuel', hfuel', heq⟩ := h n fuel rest henough (hstops.mono (by omega))
  refine heq.trans ?_
  match fuel' with
  | fuel' + 1 =>
    simp only [indexLoop]
    split
    · simp [Token.level] at hstops
    · rfl

theorem Complete.power_of_primary (h : Complete .primary t a) : Complete .power t a := by
  intro n fuel rest henough hstops
  have hbase := h.primary_end n fuel rest henough (hstops.mono (by omega))
  refine bind_eq_ok.mpr ⟨_, hbase, ?_⟩
  simp only
  split
  · simp [Token.level] at hstops
  · rfl

theorem Complete.unary_of_power (hstart : ∃ x t', t = x :: t' ∧ x.startsAtom = true) (h : Complete .power t a) :
    Complete .unary t a := by
  intro n fuel rest henough hstops
  match fuel with
  | fuel + 1 =>
    have hpower := h n (fuel + 1) rest henough hstops
    obtain ⟨x, t', rfl, hx⟩ := hstart
    simp only [List.cons_append, parseUnary]
    split
    · rename_i heq
      cases heq
      cases hx
    · rename_i heq
      cases heq
      cases hx
    · exact hpower

theorem Complete.term_of_unary (h : Complete .unary t a) : Complete .term t a := loops_parseLeft h

theorem Complete.term_end (h : Complete .term t a) : Reads (fun n fuel => parseTerm (parseExpression n) fuel) 4 t a :=
  Loops.parseLeft_end (by omega) (fun op hop => by cases op <;> simp_all [isTermOp, Token.level]) h

theorem Complete.arithmetic_of_term (h : Complete .term t a) : Complete .arithmetic t a := loops_parseLeft h.term_end

theorem Complete.arithmetic_end (h : Complete .arithmetic t a) :
    Reads (fun n fuel => parseArithmetic (parseExpression n) fuel) 5 t a :=
  Loops.parseLeft_end (by omega) (fun op hop => by cases op <;> simp_all [isArithmeticOp, Token.level]) h

theorem Complete.and_end (h : Complete .and t a) : Reads (fun n fuel => parseAnd (parseExpression n) fuel) 8 t a :=
  Loops.parseLeft_end (by omega) (fun op hop => by rw [eq_of_beq hop]; simp [Token.level]) h

theorem Complete.or_end (h : Complete .or t a) : Reads (fun n fuel => parseOr (parseExpression n) fuel) 9 t a :=
  Loops.parseLeft_end (by omega) (fun op hop => by rw [eq_of_beq hop]; simp [Token.level]) h

end

/-! ### Productions -/

theorem bind_of_ok {α β : Type} {x : Except Error α} {a : α} {k : α → Except Error β} (h : x = .ok a) :
    x >>= k = k a := by
  rw [h]
  rfl

theorem Enough.behind {n fuel : Nat} (h : Enough n fuel (t ++ rest)) : Enough n fuel rest := by
  obtain ⟨hfuel, hn⟩ := h
  rw [List.length_append] at hfuel hn
  exact ⟨by omega, by omega⟩

theorem Enough.nested {n fuel : Nat} (h : Enough n fuel (t ++ x :: rest)) :
    rest.length < n := by
  have hn := h.2
  rw [List.length_append, List.length_cons] at hn
  omega

theorem Enough.next {n fuel : Nat} {x : Token D} {t rest : List (Token D)} (h : Enough n (fuel + 1) (t ++ x :: rest)) :
    Enough n fuel rest := by
  obtain ⟨hfuel, hn⟩ := h
  rw [List.length_append, List.length_cons] at hfuel hn
  exact ⟨by omega, by omega⟩

section
variable {t t' t'' : List (Token D)} {a b c : Ast D}

theorem Complete.minus (h : Complete .unary t a) : Complete .unary (.op .minus :: t) (.unary .minus a) := by
  intro n fuel rest henough hstops
  match fuel with
  | fuel + 1 =>
    obtain ⟨hfuel, hn⟩ := henough
    rw [List.cons_append, List.length_cons] at hfuel hn
    exact bind_eq_ok.mpr ⟨_, h n fuel rest ⟨by omega, by omega⟩ hstops, rfl⟩

theorem Complete.plus (h : Complete .unary t a) : Complete .unary (.op .plus :: t) a := by
  intro n fuel rest henough hstops
  match fuel with
  | fuel + 1 =>
    obtain ⟨hfuel, hn⟩ := henough
    rw [List.cons_append, List.length_cons] at hfuel hn
    exact h n fuel rest ⟨by omega, by omega⟩ hstops

theorem Complete.power (h : Complete .primary t a) (h' : Complete .unary t' b) :
    Complete .power (t ++ Token.op .power :: t') (.binary .power a b) := by
  intro n fuel rest henough hstops
  rw [List.append_assoc, List.cons_append] at henough ⊢
  refine bind_eq_ok.mpr ⟨_, h.primary_end n fuel _ henough (by simp [Token.level]), ?_⟩
  obtain ⟨hfuel, hn⟩ := henough
  rw [List.length_append, List.length_cons] at hfuel hn
  exact bind_eq_ok.mpr ⟨_, h' n (fuel - 1) rest ⟨by omega, by omega⟩ hstops, rfl⟩

theorem Complete.index (h : Complete .primary t a) (h' : Complete .pipe t' b) :
    Complete .primary (t ++ Token.lbracket :: (t' ++ [Token.rbracket])) (.index a b) := by
  intro n fuel rest henough hstops
  have hrest : t ++ Token.lbracket :: (t' ++ [Token.rbracket]) ++ rest =
      t ++ Token.lbracket :: (t' ++ Token.rbracket :: rest) := by simp
  rw [hrest] at henough ⊢
  obtain ⟨fuel', hfuel', heq⟩ := h n fuel _ henough (by simp [Token.level])
  have hindex := h' n (.rbracket :: rest) henough.nested (by simp [Token.level])
  match fuel' with
  | fuel' + 1 =>
    refine ⟨fuel', by simp at hfuel'; omega, heq.trans ?_⟩
    exact bind_of_ok hindex

theorem Complete.chain_end {c : Chain D} (h : Complete .chain t c) : Complete .relational t c.left := by
  intro n fuel rest henough hstops
  obtain ⟨fuel', hfuel', heq⟩ := h n fuel rest henough (hstops.mono (by omega))
  refine heq.trans ?_
  match fuel' with
  | fuel' + 1 =>
    simp only [chainLoop]
    split
    · rename_i op rest'
      have hlevel := stops_cons.mp hstops
      cases op <;> first | rfl | simp [Token.level] at hlevel
    · rfl

variable {op : BinaryOp}

theorem level_of_isRelational (hop : isRelational op = true) : (Token.op op : Token D).level = 6 := by
  cases op <;> first | rfl | cases hop

theorem Complete.compare (hop : isRelational op = true) (h : Complete .arithmetic t a)
    (h' : Complete .arithmetic t' b) : Complete .chain (t ++ Token.op op :: t') (.start op a b) := by
  intro n fuel rest henough hstops
  rw [List.append_assoc, List.cons_append] at henough ⊢
  have hleft := h.arithmetic_end n fuel _ henough (stops_cons.mpr (by rw [level_of_isRelational hop]; omega))
  have htail : Enough n fuel (t' ++ rest) := (List.append_cons t _ _ ▸ henough).behind
  have hright := h'.arithmetic_end n fuel rest htail hstops
  refine ⟨fuel, htail.behind.1, (bind_of_ok hleft).trans ?_⟩
  simp only [hop, if_true]
  exact bind_of_ok hright

theorem Complete.compareNext {c : Chain D} (hop : isRelational op = true) (h : Complete .chain t c)
    (h' : Complete .arithmetic t' b) : Complete .chain (t ++ Token.op op :: t') (c.next op b) := by
  intro n fuel rest henough hstops
  rw [List.append_assoc, List.cons_append] at henough ⊢
  obtain ⟨fuel', hfuel', heq⟩ := h n fuel _ henough (stops_cons.mpr (by rw [level_of_isRelational hop]; omega))
  have hright := h'.arithmetic_end n fuel rest (List.append_cons t _ _ ▸ henough).behind hstops
  match fuel' with
  | fuel' + 1 =>
    refine ⟨fuel', by simp at hfuel'; omega, heq.trans ?_⟩
    simp only [chainLoop, hop, if_true]
    exact bind_of_ok hright

theorem Complete.operand (h : Complete .arithmetic t a) : Complete .relational t a := by
  intro n fuel rest henough hstops
  refine bind_eq_ok.mpr ⟨_, h.arithmetic_end n fuel rest henough (hstops.mono (by omega)), ?_⟩
  simp only
  split
  · split
    · rename_i hop
      rw [stops_cons, level_of_isRelational hop] at hstops
      omega
    · rfl
  · simp [Token.level] at hstops
  · simp [Token.level] at hstops
  · rfl

theorem Complete.member (h : Complete .arithmetic t a) (h' : Complete .set t' b) :
    Complete .relational (t ++ Token.kwIn :: t') (membership false a b) := by
  intro n fuel rest henough hstops
  rw [List.append_assoc, List.cons_append] at henough ⊢
  refine bind_eq_ok.mpr ⟨_, h.arithmetic_end n fuel _ henough (by simp [Token.level]), ?_⟩
  exact h' a false n fuel rest (List.append_cons t _ _ ▸ henough).behind (hstops.mono (by omega))

theorem Complete.notMember (h : Complete .arithmetic t a) (h' : Complete .set t' b) :
    Complete .relational (t ++ Token.not :: Token.kwIn :: t') (membership true a b) := by
  intro n fuel rest henough hstops
  rw [List.append_assoc, List.cons_append, List.cons_append] at henough ⊢
  refine bind_eq_ok.mpr ⟨_, h.arithmetic_end n fuel _ henough (by simp [Token.level]), ?_⟩
  have htail : Enough n fuel (Token.kwIn :: (t' ++ rest)) := (List.append_cons t _ _ ▸ henough).behind
  exact h' a true n fuel rest (Enough.behind (t := [.kwIn]) htail) (hstops.mono (by omega))

theorem Complete.setOperand (hset : StartsSet t) (hne : t ≠ [.lbracket]) (h : Complete .arithmetic t a) :
    Complete .set t a := by
  intro left negated n fuel rest henough hstops
  have harray := h.arithmetic_end n fuel rest henough hstops
  match t with
  | [] => cases hset
  | [x] => cases x <;> simp_all [StartsSet]
  | x :: y :: t =>
    simp only [List.cons_append, parseSetMembership] at harray ⊢
    split
    · rename_i heq
      cases heq
      cases hset
    · rename_i heq
      cases heq
      exact bind_eq_ok.mpr ⟨_, harray, rfl⟩
    · rename_i hlbracket
      cases x <;> simp_all [StartsSet]

theorem Complete.single (h : Complete .relational t a) : Complete .equality t a := by
  intro n fuel rest henough hstops
  refine bind_eq_ok.mpr ⟨_, h n fuel rest henough (hstops.mono (by omega)), ?_⟩
  simp only
  split
  · rename_i op rest'
    have hlevel := stops_cons.mp hstops
    cases op <;> first | rfl | simp [Token.level] at hlevel
  · rfl

theorem Complete.equality (hop : isEqualityOp op = true) (h : Complete .relational t a)
    (h' : Complete .relational t' b) : Complete .equality (t ++ Token.op op :: t') (.binary op a b) := by
  intro n fuel rest henough hstops
  rw [List.append_assoc, List.cons_append] at henough ⊢
  have hlevel : (Token.op op : Token D).level = 7 := by cases op <;> first | rfl | cases hop
  refine bind_eq_ok.mpr ⟨_, h n fuel _ henough (stops_cons.mpr (by rw [hlevel]; omega)), ?_⟩
  simp only [hop, if_true]
  exact bind_eq_ok.mpr ⟨_, h' n fuel rest (List.append_cons t _ _ ▸ henough).behind (hstops.mono (by omega)), rfl⟩

theorem Complete.not (h : Complete .not t a) : Complete .not (.not :: t) (.unary .not a) := by
  intro n bound fuel rest henough hfuel hstops
  match fuel with
  | fuel + 1 =>
    rw [List.cons_append, List.length_cons] at hfuel
    exact bind_eq_ok.mpr ⟨_, h n bound fuel rest (Enough.behind (t := [.not]) henough) (by omega) hstops, rfl⟩

theorem Complete.plain (hstart : ∃ x t', t = x :: t' ∧ x.startsSigned = true) (h : Complete .equality t a) :
    Complete .not t a := by
  intro n bound fuel rest henough hfuel hstops
  have hequality := h n bound rest henough hstops
  match fuel with
  | fuel + 1 =>
    obtain ⟨x, t', rfl, hx⟩ := hstart
    simp only [List.cons_append, parseNot]
    split
    · rename_i heq
      cases heq
      cases hx
    · exact hequality

theorem Complete.not_end (h : Complete .not t a) :
    Reads (fun n fuel => parseNot (parseExpression n) fuel fuel) 7 t a :=
  fun n fuel rest henough hstops => h n fuel fuel rest henough henough.1 hstops

theorem Complete.condition (h : Complete .or t a) {n fuel : Nat} {rest : List (Token D)} (henough : Enough n fuel (t ++ rest))
    (hstops : Stops 10 rest) : parseTernary (parseExpression n) fuel (t ++ rest) = .ok (a, rest) := by
  refine bind_eq_ok.mpr ⟨_, h.or_end n fuel rest henough (hstops.mono (by omega)), ?_⟩
  simp only
  split
  · simp [Token.level] at hstops
  · rfl

theorem Complete.ternary (hc : Complete .or t c) (ha : Complete .pipe t' a) (hb : Complete .pipe t'' b) :
    Complete .ternary (t ++ Token.question :: (t' ++ Token.colon :: t'')) (.ternary c a b) := by
  intro n fuel rest henough hstops
  have hrest : t ++ Token.question :: (t' ++ Token.colon :: t'') ++ rest =
      t ++ Token.question :: (t' ++ Token.colon :: (t'' ++ rest)) := by simp
  rw [hrest] at henough ⊢
  have htrue := henough.nested
  refine bind_eq_ok.mpr ⟨_, hc.or_end n fuel _ henough (by simp [Token.level]), ?_⟩
  refine bind_eq_ok.mpr ⟨_, ha n _ htrue (by simp [Token.level]), ?_⟩
  rw [List.length_append, List.length_cons] at htrue
  exact bind_eq_ok.mpr ⟨_, hb n rest (by omega) hstops, rfl⟩

theorem Complete.head (h : Complete .or t a) : Complete .stages t a := by
  intro n fuel rest henough hstops
  exact ⟨fuel, henough.behind.1, bind_of_ok (h.condition henough hstops)⟩

theorem Complete.stage {s : Ast D} (h : Complete .stages t a) (hs : Complete .or t' s)
    (hcall : pipeInjectArgument s a = .ok b) : Complete .stages (t ++ Token.pipe :: t') b := by
  intro n fuel rest henough hstops
  rw [List.append_assoc, List.cons_append] at henough ⊢
  obtain ⟨fuel', hfuel', heq⟩ := h n fuel _ henough (by simp [Token.level])
  have hstage := hs.condition (List.append_cons t _ _ ▸ henough).behind hstops
  match fuel' with
  | fuel' + 1 =>
    refine ⟨fuel', by simp at hfuel'; omega, heq.trans ?_⟩
    exact (bind_of_ok hstage).trans (bind_of_ok hcall)

theorem pipeLoop_stops {stage : Parse D (Ast D)} {fuel : Nat} {rest : List (Token D)} (hfuel : rest.length < fuel)
    (hstops : Stops 11 rest) : pipeLoop stage fuel a rest = .ok (a, rest) := by
  match fuel with
  | fuel + 1 =>
    simp only [pipeLoop]
    split
    · simp [Token.level] at hstops
    · rfl

theorem Complete.pipe (h : Complete .ternary t a) : Complete .pipe t a := by
  intro n rest hn hstops
  match n with
  | n + 1 =>
    have henough : Enough n (n + 1) (t ++ rest) := ⟨hn, by omega⟩
    exact bind_eq_ok.mpr ⟨_, h n (n + 1) rest henough hstops, pipeLoop_stops henough.behind.1 hstops⟩

theorem Complete.piped (h : Complete .stages t a) : Complete .pipe t a := by
  intro n rest hn hstops
  match n with
  | n + 1 =>
    obtain ⟨fuel', hfuel', heq⟩ := h n (n + 1) rest ⟨hn, by omega⟩ (hstops.mono (by omega))
    exact heq.trans (pipeLoop_stops hfuel' hstops)

end

/-! ### Atoms and lists -/

theorem parseSegments_segmentTokens (message : String) (segments : List String)
    (h : rest.head? ≠ some .dot) : parseSegments message (segmentTokens segments ++ rest) = .ok (segments, rest) := by
  induction segments with
  | nil =>
    match rest with
    | [] => rfl
    | x :: rest => cases x <;> first | rfl | exact absurd rfl h
  | cons name segments ih => exact bind_eq_ok.mpr ⟨_, ih, rfl⟩

theorem Stops.ne_dot {level : Nat} (h : Stops level rest) (hlevel : 1 ≤ level) :
    rest.head? ≠ some .dot := by
  intro hhead
  have := h _ hhead
  simp only [Token.level] at this
  omega

section
variable {t t' : List (Token D)} {a : Ast D}

theorem Complete.param (name : String) (segments : List String) :
    Complete .atom (.param name :: segmentTokens segments : List (Token D)) (.param (Ast.fullKey (name :: segments))) := by
  intro n fuel rest henough hstops
  exact bind_eq_ok.mpr ⟨_, parseSegments_segmentTokens _ segments (hstops.ne_dot (by omega)), rfl⟩

theorem Complete.path (name : String) (segments : List String) :
    Complete .atom (.identifier name :: segmentTokens segments : List (Token D)) (pathNode name segments) := by
  intro n fuel rest henough hstops
  refine bind_eq_ok.mpr ⟨_, parseSegments_segmentTokens _ segments (hstops.ne_dot (by omega)), ?_⟩
  simp only
  split
  · simp [Token.level] at hstops
  · rfl

variable {args : List (Option String × Ast D)}

theorem Complete.call_args (name : String) (segments : List String)
    (h : Complete .argList t args) {n fuel : Nat} {rest : List (Token D)}
    (henough : Enough n fuel (Token.identifier name :: (segmentTokens segments ++ Token.lparen :: t) ++ rest)) :
    parseAtom (parseExpression n) fuel (Token.identifier name :: (segmentTokens segments ++ Token.lparen :: t) ++ rest) =
      parseCallField segments.isEmpty (Ast.fullKey (name :: segments)) args rest := by
  have hrest : (Token.identifier name :: (segmentTokens segments ++ Token.lparen :: t) ++ rest : List (Token D)) =
      Token.identifier name :: (segmentTokens segments ++ Token.lparen :: (t ++ rest)) := by simp
  rw [hrest] at henough ⊢
  refine (bind_of_ok (parseSegments_segmentTokens _ segments (by simp))).trans ?_
  rw [← List.cons_append] at henough
  match n, henough.nested with
  | n + 1, hn =>
    have hbehind := (List.append_cons _ _ _ ▸ henough).behind
    exact bind_of_ok (h n fuel rest ⟨hbehind.1, by omega⟩ (stops_zero rest))

theorem Complete.call (name : String) (segments : List String)
    (h : Complete .argList t args) :
    Complete .atom (Token.identifier name :: (segmentTokens segments ++ Token.lparen :: t))
      (callNode segments.isEmpty (Ast.fullKey (name :: segments)) args) := by
  intro n fuel rest henough hstops
  refine (Complete.call_args name segments h henough).trans ?_
  match rest with
  | [] => rfl
  | x :: rest => cases x <;> first | rfl | simp [Token.level] at hstops

theorem Complete.producer (name : String) (segments : List String) (field : String)
    (h : Complete .argList t args) :
    Complete .atom (Token.identifier name ::
        (segmentTokens segments ++ Token.lparen :: (t ++ [Token.dot, Token.identifier field])))
      (.producerAccess (Ast.fullKey (name :: segments)) (args.map (·.2)) (args.map (·.1)) field) := by
  intro n fuel rest henough hstops
  have hrest : Token.identifier name ::
        (segmentTokens segments ++ Token.lparen :: (t ++ [Token.dot, Token.identifier field])) ++ rest =
      Token.identifier name :: (segmentTokens segments ++ Token.lparen :: t) ++
        Token.dot :: Token.identifier field :: rest := by simp
  rw [hrest] at henough ⊢
  exact Complete.call_args name segments h henough

theorem Complete.group_end (h : Complete .pipe t a) {n fuel : Nat} {rest : List (Token D)}
    (henough : Enough n fuel (Token.lparen :: (t ++ Token.rparen :: rest))) :
    parseAtom (parseExpression n) fuel (Token.lparen :: (t ++ Token.rparen :: rest)) = parseGroupField a rest :=
  bind_of_ok (h n (.rparen :: rest) (Enough.nested (t := []) henough) (by simp [Token.level]))

theorem Complete.group (h : Complete .pipe t a) : Complete .atom (Token.lparen :: (t ++ [Token.rparen])) a := by
  intro n fuel rest henough hstops
  have hrest : Token.lparen :: (t ++ [Token.rparen]) ++ rest = Token.lparen :: (t ++ Token.rparen :: rest) := by simp
  rw [hrest] at henough ⊢
  refine (h.group_end henough).trans ?_
  match rest with
  | [] => rfl
  | x :: rest => cases x <;> first | rfl | simp [Token.level] at hstops

theorem Complete.groupField (field : String) (h : Complete .pipe t a) :
    Complete .atom (Token.lparen :: (t ++ [Token.rparen, Token.dot, Token.identifier field])) (.fieldOf a field) := by
  intro n fuel rest henough hstops
  have hrest : Token.lparen :: (t ++ [Token.rparen, Token.dot, Token.identifier field]) ++ rest =
      Token.lparen :: (t ++ Token.rparen :: Token.dot :: Token.identifier field :: rest) := by simp
  rw [hrest] at henough ⊢
  exact h.group_end henough

theorem Complete.array {es : List (Ast D)} (hstart : ∃ x t', t = x :: t' ∧ x.startsExpression = true)
    (h : Complete .elements t es) : Complete .atom (.lbracket :: t) (.array es) := by
  intro n fuel rest henough hstops
  have hbehind := Enough.behind (t := [.lbracket]) henough
  match n, Enough.nested (t := []) henough with
  | n + 1, hn =>
    refine bind_eq_ok.mpr ⟨(es, rest), ?_, rfl⟩
    have helements := h n fuel rest ⟨hbehind.1, Nat.le_of_lt_succ hn⟩ (stops_zero rest)
    obtain ⟨x, t', rfl, hx⟩ := hstart
    cases x <;> first | exact helements | cases hx

theorem Complete.record {fs : List (String × Ast D)} (hstart : ∃ x t', t = x :: t' ∧ x.startsAtom = true)
    (h : Complete .fields t fs) : Complete .atom (.lbrace :: t) (.record (fs.map (·.1)) (fs.map (·.2))) := by
  intro n fuel rest henough hstops
  have hbehind := Enough.behind (t := [.lbrace]) henough
  match n, Enough.nested (t := []) henough with
  | n + 1, hn =>
    refine bind_eq_ok.mpr ⟨(fs, rest), ?_, rfl⟩
    have hfields := h n fuel rest ⟨hbehind.1, Nat.le_of_lt_succ hn⟩ (stops_zero rest)
    obtain ⟨x, t', rfl, hx⟩ := hstart
    cases x <;> first | exact hfields | cases hx

theorem Complete.someArgs {xs : List (Option String × Ast D)}
    (hstart : ∃ x t', t = x :: t' ∧ x.startsExpression = true) (h : Complete .args t xs) : Complete .argList t xs := by
  intro n fuel rest henough hstops
  have hargs := h n fuel rest henough hstops
  obtain ⟨x, t', rfl, hx⟩ := hstart
  cases x <;> first | exact hargs | cases hx

theorem Complete.lastArg {x : Option String × Ast D} (h : Complete .arg t x) : Complete .args (t ++ [Token.rparen]) [x] := by
  intro n fuel rest henough hstops
  match fuel with
  | fuel + 1 =>
    rw [List.append_assoc] at henough ⊢
    exact bind_eq_ok.mpr ⟨_, h n (fuel + 1) _ henough (by simp [Token.level]), rfl⟩

theorem Complete.moreArgs {x : Option String × Ast D} {xs : List (Option String × Ast D)} (h : Complete .arg t x)
    (h' : Complete .args t' xs) : Complete .args (t ++ Token.comma :: t') (x :: xs) := by
  intro n fuel rest henough hstops
  match fuel with
  | fuel + 1 =>
    rw [List.append_assoc, List.cons_append] at henough ⊢
    refine bind_eq_ok.mpr ⟨_, h n (fuel + 1) _ henough (by simp [Token.level]), ?_⟩
    exact bind_eq_ok.mpr ⟨_, h' n fuel rest henough.next hstops, rfl⟩

theorem Complete.positional (hstart : ∃ x t', t = x :: t' ∧ x.startsExpression = true)
    (hnamed : ∀ name t', t ≠ .identifier name :: .assign :: t') (h : Complete .pipe t a) :
    Complete .arg t (none, a) := by
  intro n fuel rest henough hstops
  obtain ⟨hfuel, hn⟩ := henough
  have hexpr := h (n + 1) rest (by omega) hstops
  simp only [parseCallArgument]
  split
  · rename_i name rest' heq
    obtain ⟨x, t', rfl, -⟩ := hstart
    simp only [List.cons_append, List.cons.injEq] at heq
    obtain ⟨rfl, heq⟩ := heq
    cases t' with
    | nil =>
      rw [List.nil_append] at heq
      simp [heq, Token.level] at hstops
    | cons y t' =>
      rw [List.cons_append, List.cons.injEq] at heq
      exact absurd (by rw [heq.1]) (hnamed name t')
  · exact bind_eq_ok.mpr ⟨_, hexpr, rfl⟩

theorem Complete.named (name : String) (h : Complete .pipe t a) :
    Complete .arg (.identifier name :: .assign :: t) (some name, a) := by
  intro n fuel rest henough hstops
  have hn := henough.2
  rw [List.cons_append, List.cons_append, List.length_cons, List.length_cons] at hn
  exact bind_eq_ok.mpr ⟨_, h (n + 1) rest (by omega) hstops, rfl⟩

theorem Complete.lastElement (h : Complete .pipe t a) : Complete .elements (t ++ [Token.rbracket]) [a] := by
  intro n fuel rest henough hstops
  match fuel with
  | fuel + 1 =>
    have hn := henough.2
    rw [List.append_assoc] at hn ⊢
    exact bind_eq_ok.mpr ⟨_, h (n + 1) _ (by omega) (by simp [Token.level]), rfl⟩

theorem Complete.moreElements {es : List (Ast D)} (h : Complete .pipe t a) (h' : Complete .elements t' es) :
    Complete .elements (t ++ Token.comma :: t') (a :: es) := by
  intro n fuel rest henough hstops
  match fuel with
  | fuel + 1 =>
    rw [List.append_assoc, List.cons_append] at henough ⊢
    refine bind_eq_ok.mpr ⟨_, h (n + 1) _ (by have := henough.2; omega) (by simp [Token.level]), ?_⟩
    exact bind_eq_ok.mpr ⟨_, h' n fuel rest henough.next hstops, rfl⟩

theorem Complete.lastField {x : String × Ast D} (h : Complete .field t x) : Complete .fields (t ++ [Token.rbrace]) [x] := by
  intro n fuel rest henough hstops
  match fuel with
  | fuel + 1 =>
    rw [List.append_assoc] at henough ⊢
    exact bind_eq_ok.mpr ⟨_, h n (fuel + 1) _ henough (by simp [Token.level]), rfl⟩

theorem Complete.moreFields {x : String × Ast D} {xs : List (String × Ast D)} (h : Complete .field t x)
    (h' : Complete .fields t' xs) : Complete .fields (t ++ Token.comma :: t') (x :: xs) := by
  intro n fuel rest henough hstops
  match fuel with
  | fuel + 1 =>
    rw [List.append_assoc, List.cons_append] at henough ⊢
    refine bind_eq_ok.mpr ⟨_, h n (fuel + 1) _ henough (by simp [Token.level]), ?_⟩
    exact bind_eq_ok.mpr ⟨_, h' n fuel rest henough.next hstops, rfl⟩

theorem Complete.assigned (name : String) (h : Complete .pipe t a) :
    Complete .field (.identifier name :: .assign :: t) (name, a) := by
  intro n fuel rest henough hstops
  have hn := henough.2
  rw [List.cons_append, List.cons_append, List.length_cons, List.length_cons] at hn
  exact bind_eq_ok.mpr ⟨_, h (n + 1) rest (by omega) (hstops.mono (by omega)), rfl⟩

theorem Complete.labelled (name : String) (h : Complete .pipe t a) :
    Complete .field (.identifier name :: .colon :: t) (name, a) := by
  intro n fuel rest henough hstops
  have hn := henough.2
  rw [List.cons_append, List.cons_append, List.length_cons, List.length_cons] at hn
  exact bind_eq_ok.mpr ⟨_, h (n + 1) rest (by omega) (hstops.mono (by omega)), rfl⟩

theorem Complete.punned (name : String) :
    Complete .field ([.identifier name] : List (Token D)) (name, .identifier name) := by
  intro n fuel rest henough hstops
  match rest with
  | [] => rfl
  | x :: rest => cases x <;> first | rfl | simp [Token.level] at hstops

end

theorem Derives.complete {s : Sym} {r : s.Result D} (h : Derives form s t r) : Complete s t r := by
  induction h with
  | pipe _ ih => exact ih.pipe
  | piped _ ih => exact ih.piped
  | head _ ih => exact ih.head
  | stage _ _ hcall ih ihs => exact ih.stage ihs hcall
  | condition _ ih => exact fun n fuel rest henough hstops => ih.condition henough (hstops.mono (by omega))
  | ternary _ _ _ ihc iha ihb => exact ihc.ternary iha ihb
  | disjunct _ ih => exact loops_parseLeft ih.and_end
  | or _ _ ih ih' => exact Loops.parseLeft_next rfl (by simp [Token.level]) ih ih'.and_end
  | conjunct _ ih => exact loops_parseLeft ih.not_end
  | and _ _ ih ih' => exact Loops.parseLeft_next rfl (by simp [Token.level]) ih ih'.not_end
  | not _ ih => exact ih.not
  | plain h ih => exact ih.plain h.starts
  | single _ ih => exact ih.single
  | equality hop _ _ ih ih' => exact ih.equality hop ih'
  | operand _ ih => exact ih.operand
  | chained _ ih => exact ih.chain_end
  | member _ _ ih ih' => exact ih.member ih'
  | notMember _ _ ih ih' => exact ih.notMember ih'
  | literal _ h ih =>
    obtain ⟨x, t', rfl, hx⟩ := h.starts
    have hatom : Complete .atom _ _ := ih.array ⟨x, t', rfl, hx⟩
    have hunary := Complete.unary_of_power ⟨.lbracket, _, rfl, rfl⟩ hatom.primary_of_atom.power_of_primary
    exact hunary.term_of_unary.arithmetic_of_term.setOperand (startsSet_lbracket (by rintro _ ⟨⟩; cases hx)) (by simp)
  | setOperand _ h hset ih => exact ih.setOperand hset h.ne_lbracket
  | compare hop _ _ ih ih' => exact ih.compare hop ih'
  | compareNext hop _ _ ih ih' => exact ih.compareNext hop ih'
  | summand _ ih => exact ih.arithmetic_of_term
  | @arithmetic _ _ _ _ op hop _ _ ih ih' =>
    exact Loops.parseLeft_next hop (by cases op <;> simp_all [isArithmeticOp, Token.level]) ih ih'.term_end
  | factor _ ih => exact ih.term_of_unary
  | @term _ _ _ _ op hop _ _ ih ih' =>
    exact Loops.parseLeft_next hop (by cases op <;> simp_all [isTermOp, Token.level]) ih ih'
  | minus _ ih => exact ih.minus
  | plus _ ih => exact ih.plus
  | unsigned h ih => exact ih.unary_of_power h.starts
  | base _ ih => exact ih.power_of_primary
  | power _ _ ih ih' => exact ih.power ih'
  | atom _ ih => exact ih.primary_of_atom
  | index _ _ ih ih' => exact ih.index ih'
  | number v | int64 v | bool v | string v => exact fun n fuel rest henough hstops => rfl
  | param name segments => exact .param name segments
  | path name segments => exact .path name segments
  | call name segments _ ih => exact .call name segments ih
  | producer name segments field _ ih => exact .producer name segments field ih
  | group _ ih => exact ih.group
  | groupField field _ ih => exact ih.groupField field
  | emptyArray | emptyRecord | noArgs => exact fun n fuel rest henough hstops => rfl
  | array h ih => exact ih.array h.starts
  | record h ih => exact ih.record h.starts
  | someArgs h ih => exact ih.someArgs h.starts
  | lastArg _ ih => exact ih.lastArg
  | moreArgs _ _ ih ih' => exact ih.moreArgs ih'
  | positional h ih => exact ih.positional h.starts (h.not_named (by simp))
  | named name _ ih => exact ih.named name
  | lastElement _ ih => exact ih.lastElement
  | moreElements _ _ ih ih' => exact ih.moreElements ih'
  | lastField _ ih => exact ih.lastField
  | moreFields _ _ ih ih' => exact ih.moreFields ih'
  | assigned name _ ih => exact ih.assigned name
  | labelled name _ ih => exact ih.labelled name
  | punned name => exact .punned name

theorem exprAstParse_of_derives {tokens : List (Token D)} {a : Ast D} (h : Derives form .pipe tokens a) :
    exprAstParse tokens = .ok a := by
  have hexpr := h.complete (tokens.length + 1) [] (by simp) (stops_nil 11)
  rw [List.append_nil] at hexpr
  exact bind_eq_ok.mpr ⟨_, hexpr, rfl⟩

/-- The parser accepts the tokens that derive from the grammar, and returns the tree of their derivation. -/
theorem exprAstParse_eq_ok_iff (tokens : List (Token D)) (a : Ast D) :
    exprAstParse tokens = .ok a ↔ Derives .arithmetic .pipe tokens a :=
  ⟨derives_of_exprAstParse, exprAstParse_of_derives⟩

/-- A membership test in something that is not a list. Only the productions of `in` build calls without argument names. -/
def InSum (a : Ast D) : Prop := ∃ x op l r, a = .call "contains" [x, .binary op l r] []

theorem not_inSum_callNode (plain : Bool) (name : String) (args : List (Option String × Ast D)) :
    ¬ InSum (callNode plain name args) := by
  rintro ⟨x, op, l, r, h⟩
  match args with
  | [] =>
    cases plain <;> simp [callNode, lowerWindowReduction] at h
  | arg :: args =>
    cases plain
    · simp [callNode] at h
    · simp only [callNode, lowerWindowReduction, if_true] at h
      split at h
      · simp at h
      · split at h <;> simp at h

theorem not_inSum_pipeInjectArgument {s a b : Ast D} (h : pipeInjectArgument s a = .ok b) : ¬ InSum b := by
  rintro ⟨x, op, l, r, rfl⟩
  unfold pipeInjectArgument at h
  split at h <;> simp [syntaxError] at h

def NoInSum (s : Sym) : s.Result D → Prop :=
  match s with
  | .chain => fun c => ¬ InSum c.left
  | .argList | .args | .arg | .elements | .fields | .field => fun _ => True
  | .set => fun a => ∃ es, a = .array es
  | .pipe | .stages | .ternary | .or | .and | .not | .equality | .relational | .arithmetic | .term | .unary | .power
  | .primary | .atom => fun a => ¬ InSum a

theorem Derives.noInSum {s : Sym} {r : s.Result D} (h : Derives .literal s t r) : NoInSum s r := by
  induction h with
  | pipe _ ih | piped _ ih | head _ ih | condition _ ih | disjunct _ ih | conjunct _ ih | plain _ ih | single _ ih
  | operand _ ih | chained _ ih | summand _ ih | factor _ ih | plus _ ih | unsigned _ ih | base _ ih | atom _ ih
  | group _ ih => exact ih
  | stage _ _ hcall => exact not_inSum_pipeInjectArgument hcall
  | call name segments => exact not_inSum_callNode _ _ _
  | path name segments =>
    rintro ⟨x, op, l, r, h⟩
    match segments with
    | [] | [_] | _ :: _ :: _ => cases h
  | member _ _ _ ih' | notMember _ _ _ ih' =>
    obtain ⟨es, rfl⟩ := ih'
    rintro ⟨x, op, l, r, h⟩
    cases h
  | literal => exact ⟨_, rfl⟩
  | setOperand hform => cases hform
  | someArgs | noArgs | lastArg | moreArgs | positional | named | lastElement | moreElements | lastField
  | moreFields | assigned | labelled | punned => trivial
  | _ =>
    rintro ⟨x, op, l, r, h⟩
    cases h

theorem exprAstParse_in_sum :
    exprAstParse ([.identifier "x", .kwIn, .lbracket, .number 1, .rbracket, .op .plus, .number 2] : List (Token Int)) =
        .ok (.call "contains" [.identifier "x", .binary .plus (.array [.number 1]) (.number 2)] []) ∧
      ∀ a, ¬ Derives .literal .pipe
        ([.identifier "x", .kwIn, .lbracket, .number 1, .rbracket, .op .plus, .number 2] : List (Token Int)) a := by
  have haccepts : exprAstParse
      ([.identifier "x", .kwIn, .lbracket, .number 1, .rbracket, .op .plus, .number 2] : List (Token Int)) =
      .ok (.call "contains" [.identifier "x", .binary .plus (.array [.number 1]) (.number 2)] []) := rfl
  refine ⟨haccepts, ?_⟩
  intro a ha
  have htree := (exprAstParse_of_derives ha).symm.trans haccepts
  cases htree
  exact ha.noInSum ⟨_, _, _, _, rfl⟩

end Cxpr.Parser
