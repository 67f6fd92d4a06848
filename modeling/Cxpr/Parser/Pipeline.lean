import Cxpr.Parser.Complete

/-! Pipelines as call syntax (`docs/api/language.md`): a stage `f(a)` behind `(x) |>` stands for `f((x), a)`. The piped
    argument is put into the node of the stage after the stage has been parsed, so a call is lowered to a window reduction
    by its own arguments on the one way and by all arguments on the other. -/

namespace Cxpr.Parser
variable {D : Type}

structure Parsed (D : Type) where
  tokens : List (Token D)
  ast : Ast D
  parses : exprAstParse tokens = .ok ast

structure Argument (D : Type) where
  name : Option String := none
  value : Parsed D

def Argument.tokens (x : Argument D) : List (Token D) :=
  match x.name with
  | none => x.value.tokens
  | some name => .identifier name :: .assign :: x.value.tokens

def Argument.ast (x : Argument D) : Option String × Ast D := (x.name, x.value.ast)

def argumentTokens : List (Argument D) → List (Token D)
  | [] => [.rparen]
  | [x] => x.tokens ++ [.rparen]
  | x :: y :: rest => x.tokens ++ .comma :: argumentTokens (y :: rest)

/-- A stage: a name, a call or a call with a field. A called name may be qualified by segments. -/
inductive Stage (D : Type) where
  | bare (name : String)
  | call (name : String) (segments : List String) (args : List (Argument D))
  | producer (name : String) (segments : List String) (args : List (Argument D)) (field : String)

namespace Stage

def callTokens (name : String) (segments : List String) (args : List (Argument D)) : List (Token D) :=
  .identifier name :: (segmentTokens segments ++ .lparen :: argumentTokens args)

def tokens : Stage D → List (Token D)
  | .bare name => [.identifier name]
  | .call name segments args => callTokens name segments args
  | .producer name segments args field =>
    .identifier name :: (segmentTokens segments ++ .lparen :: (argumentTokens args ++ [.dot, .identifier field]))

def withFirst (x : Argument D) : Stage D → Stage D
  | .bare name => .call name [] [x]
  | .call name segments args => .call name segments (x :: args)
  | .producer name segments args field => .producer name segments (x :: args) field

def ast : Stage D → Ast D
  | .bare name => .identifier name
  | .call name segments args => callNode segments.isEmpty (Ast.fullKey (name :: segments)) (args.map Argument.ast)
  | .producer name segments args field =>
    .producerAccess (Ast.fullKey (name :: segments)) ((args.map Argument.ast).map (·.2)) ((args.map Argument.ast).map (·.1)) field

end Stage

/-! ### Derivations -/

theorem Parsed.derives (x : Parsed D) : Derives .arithmetic .pipe x.tokens x.ast := derives_of_exprAstParse x.parses

theorem Argument.derives (x : Argument D) : Derives .arithmetic .arg x.tokens x.ast := by
  obtain ⟨name, value⟩ := x
  cases name with
  | none => exact .positional value.derives
  | some name => exact .named name value.derives

theorem derives_arguments : ∀ args : List (Argument D), Derives .arithmetic .argList (argumentTokens args) (args.map Argument.ast)
  | [] => .noArgs
  | x :: rest => .someArgs (derives x rest)
where
  derives (x : Argument D) : ∀ rest : List (Argument D),
      Derives .arithmetic .args (argumentTokens (x :: rest)) ((x :: rest).map Argument.ast)
    | [] => .lastArg x.derives
    | y :: rest => .moreArgs x.derives (derives y rest)

theorem Derives.or_of_atom {form : SetForm} {t : List (Token D)} {a : Ast D} (h : Derives form .atom t a) : Derives form .or t a :=
  .disjunct (.conjunct (.plain (.single (.operand (.summand (.factor (.unsigned (.base (.atom h)))))))))

theorem Stage.derives (s : Stage D) : Derives .arithmetic .atom s.tokens s.ast := by
  cases s with
  | bare name => exact .path name []
  | call name segments args => exact .call name segments (derives_arguments args)
  | producer name segments args field => exact .producer name segments field (derives_arguments args)

def Parsed.group (x : Parsed D) : Parsed D where
  tokens := .lparen :: (x.tokens ++ [.rparen])
  ast := x.ast
  parses := exprAstParse_of_derives (.pipe (.condition (.or_of_atom (.group x.derives))))

/-- The call that the stage stands for behind `(x) |>`. -/
def Stage.direct (s : Stage D) (x : Parsed D) : Parsed D where
  tokens := (s.withFirst ⟨none, x.group⟩).tokens
  ast := (s.withFirst ⟨none, x.group⟩).ast
  parses := exprAstParse_of_derives (.pipe (.condition (.or_of_atom (s.withFirst ⟨none, x.group⟩).derives)))

def direct (x : Parsed D) (stages : List (Stage D)) : Parsed D := stages.foldl (fun x s => s.direct x) x

/-- `(x) |> s |> …`. -/
def pipeTokens (x : Parsed D) (stages : List (Stage D)) : List (Token D) :=
  stages.foldl (fun t s => t ++ .pipe :: s.tokens) x.group.tokens

def Stage.injected (s : Stage D) (piped : Ast D) : Ast D :=
  match s.ast with
  | .identifier name => .call name [piped] [none]
  | .call name args argNames => .call name (piped :: args) (none :: argNamesOf args.length argNames)
  | .producerAccess name args argNames field =>
    .producerAccess name (piped :: args) (none :: argNamesOf args.length argNames) field
  | a => a

theorem lowerWindowReduction_eq_call (name : String) (args : List (Ast D)) (argNames : List (Option String)) :
    ∃ name' args' argNames', lowerWindowReduction name args argNames = .call name' args' argNames' := by
  unfold lowerWindowReduction
  split
  · exact ⟨_, _, _, rfl⟩
  · dsimp only
    split <;> exact ⟨_, _, _, rfl⟩

theorem Stage.pipeInject_eq (s : Stage D) (piped : Ast D) : pipeInjectArgument s.ast piped = .ok (s.injected piped) := by
  cases s with
  | bare | producer => rfl
  | call name segments args =>
    have hcall : ∃ name' args' argNames', (Stage.call name segments args).ast = .call name' args' argNames' := by
      simp only [Stage.ast, callNode]
      split
      · exact lowerWindowReduction_eq_call _ _ _
      · exact ⟨_, _, _, rfl⟩
    obtain ⟨name', args', argNames', hast⟩ := hcall
    rw [Stage.injected, hast]
    rfl

theorem derives_stages {t : List (Token D)} {a : Ast D} (h : Derives .arithmetic .stages t a) (stages : List (Stage D)) :
    Derives .arithmetic .stages (stages.foldl (fun t s => t ++ .pipe :: s.tokens) t) (stages.foldl (fun a s => s.injected a) a) := by
  induction stages generalizing t a with
  | nil => exact h
  | cons s stages ih => exact ih (.stage h (.or_of_atom s.derives) (s.pipeInject_eq a))

theorem parse_pipeTokens (x : Parsed D) (stages : List (Stage D)) :
    exprAstParse (pipeTokens x stages) = .ok (stages.foldl (fun a s => s.injected a) x.ast) :=
  exprAstParse_of_derives (.piped (derives_stages (.head (.or_of_atom (.group x.derives))) stages))

/-! ### Lowered calls -/

def Lowers (name : String) (args : List (Ast D)) : Prop :=
  name = "roc" ∧ args.length = 2 ∨
    (name = "mean_absdev" ∧ args.length = 2 ∨ args.length = 1 ∧ (windowReductionName name).isSome) ∧
      ∃ x n names tail, args = .call "window" [x, n] names :: tail

section
variable {name : String} {args : List (Ast D)} {argNames : List (Option String)}

theorem windowReductionName_ne {lowered : String} (h : windowReductionName name = some lowered) : lowered ≠ name := by
  unfold windowReductionName at h
  split at h <;> cases h <;> decide

theorem lowerWindowReduction_of_not (h : ¬ Lowers name args) : lowerWindowReduction name args argNames = .call name args argNames := by
  unfold lowerWindowReduction
  rw [if_neg fun hroc => h (.inl hroc)]
  dsimp only
  split
  · rename_i loweredName x n windowNames tail hlowered
    refine absurd (.inr ⟨?_, x, n, windowNames, tail, rfl⟩) h
    split at hlowered
    · rename_i habsdev
      exact .inl habsdev
    · split at hlowered
      · rename_i hlength
        exact .inr ⟨hlength, Option.isSome_iff_exists.mpr ⟨_, hlowered⟩⟩
      · cases hlowered
  · rfl

theorem lowerWindowReduction_of_lowers (argNames : List (Option String)) (h : Lowers name args) :
    ∃ name' args' argNames', lowerWindowReduction name args argNames = .call name' args' argNames' ∧ name' ≠ name ∧
      (name = "roc" ∧ args.length = 2 ∧ args' = args ∨ ¬ (name = "roc" ∧ args.length = 2) ∧ args'.length = args.length + 1) := by
  unfold lowerWindowReduction
  by_cases hroc : name = "roc" ∧ args.length = 2
  · rw [if_pos hroc]
    obtain ⟨rfl, hlength⟩ := hroc
    exact ⟨_, _, _, rfl, by decide, .inl ⟨rfl, hlength, rfl⟩⟩
  · rw [if_neg hroc]
    obtain ⟨hreduction, x, n, names, tail, rfl⟩ := h.resolve_left hroc
    dsimp only
    rcases hreduction with habsdev | ⟨hlength, hname⟩
    · rw [if_pos habsdev]
      obtain ⟨rfl, -⟩ := habsdev
      exact ⟨_, _, _, rfl, by decide, .inr ⟨hroc, by simp⟩⟩
    · have habsdev : ¬ (name = "mean_absdev" ∧ (Ast.call "window" [x, n] names :: tail).length = 2) := fun h => by omega
      obtain ⟨lowered, hlowered⟩ := Option.isSome_iff_exists.mp hname
      rw [if_neg habsdev, if_pos hlength, hlowered]
      exact ⟨_, _, _, rfl, windowReductionName_ne hlowered, .inr ⟨hroc, by simp⟩⟩

theorem argNamesOf_length (h : argNames.length = args.length) : argNamesOf args.length argNames = argNames := by
  refine List.ext_getElem? fun i => ?_
  rw [argNamesOf, List.getElem?_map]
  by_cases hi : i < args.length
  · rw [List.getElem?_range hi, Option.map_some, List.getElem?_eq_getElem (h ▸ hi)]
    rfl
  · rw [List.getElem?_eq_none (by simpa using hi), List.getElem?_eq_none (by omega)]
    rfl

theorem pipeInject_lowered_iff (name : String) (args : List (Ast D)) (argNames : List (Option String)) (h : argNames.length = args.length) (piped a : Ast D) :
    pipeInjectArgument (lowerWindowReduction name args argNames) piped = .ok (lowerWindowReduction name (a :: args) (none :: argNames)) ↔
      piped = a ∧ ¬ (Lowers name args ∨ Lowers name (a :: args)) := by
  by_cases hstage : Lowers name args
  · refine iff_of_false (fun heq => ?_) fun hboth => hboth.2 (.inl hstage)
    obtain ⟨name', args', argNames', hlower, hne, hargs⟩ := lowerWindowReduction_of_lowers argNames hstage
    rw [hlower] at heq
    by_cases hcall : Lowers name (a :: args)
    · obtain ⟨name'', args'', argNames'', hlower', -, hargs'⟩ := lowerWindowReduction_of_lowers (none :: argNames) hcall
      rw [hlower'] at heq
      simp only [pipeInjectArgument, Except.ok.injEq, Ast.call.injEq] at heq
      have hlength : args'.length + 1 = args''.length := by rw [← heq.2.1, List.length_cons]
      have hcons : (a :: args).length = args.length + 1 := rfl
      rcases hargs with ⟨-, htwo, rfl⟩ | ⟨hroc, hmore⟩ <;> rcases hargs' with ⟨-, htwo', rfl⟩ | ⟨hroc', hmore'⟩
      · omega
      · omega
      · omega
      -- the arguments of a window in both: `mean_absdev` with one argument, which is no reduction of one window
      · obtain ⟨hcount, -⟩ := hstage.resolve_left hroc
        obtain ⟨hcount', -⟩ := hcall.resolve_left hroc'
        rcases hcount' with ⟨rfl, hcount'⟩ | ⟨hcount', -⟩ <;> rcases hcount with ⟨-, hcount⟩ | ⟨hcount, hname⟩
        · omega
        · cases hname
        · omega
        · omega
    · rw [lowerWindowReduction_of_not hcall] at heq
      simp only [pipeInjectArgument, Except.ok.injEq, Ast.call.injEq] at heq
      exact hne heq.1
  · rw [lowerWindowReduction_of_not hstage]
    by_cases hcall : Lowers name (a :: args)
    · refine iff_of_false (fun heq => ?_) fun hboth => hboth.2 (.inr hcall)
      obtain ⟨name', args', argNames', hlower, hne, -⟩ := lowerWindowReduction_of_lowers (none :: argNames) hcall
      rw [hlower] at heq
      simp only [pipeInjectArgument, Except.ok.injEq, Ast.call.injEq] at heq
      exact hne heq.1.symm
    · rw [lowerWindowReduction_of_not hcall]
      simp [pipeInjectArgument, argNamesOf_length h, hstage, hcall]

end

@[simp] theorem fullKey_singleton (name : String) : Ast.fullKey [name] = name := rfl

/-- The stage as written, or the call it stands for behind `a`, is lowered. -/
def Stage.Lowered (a : Ast D) : Stage D → Prop
  | .bare name => Lowers name [a]
  | .call name [] args => Lowers name (args.map (·.value.ast)) ∨ Lowers name (a :: args.map (·.value.ast))
  | .call _ (_ :: _) _ | .producer .. => False

def Unlowered (x : Parsed D) : List (Stage D) → Prop
  | [] => True
  | s :: stages => ¬ s.Lowered x.ast ∧ Unlowered (s.direct x) stages

theorem Stage.injected_eq_iff (s : Stage D) (piped : Ast D) (x : Parsed D) :
    s.injected piped = (s.direct x).ast ↔ piped = x.ast ∧ ¬ s.Lowered x.ast := by
  have hok : s.injected piped = (s.direct x).ast ↔ pipeInjectArgument s.ast piped = .ok (s.direct x).ast := by
    rw [s.pipeInject_eq, Except.ok.injEq]
  rw [hok]
  cases s with
  | bare name =>
    have hcall : ¬ Lowers name ([] : List (Ast D)) := by
      rintro (⟨-, h⟩ | ⟨⟨-, h⟩ | ⟨h, -⟩, -⟩) <;> cases h
    have hiff := pipeInject_lowered_iff name [] [] rfl piped x.ast
    rw [lowerWindowReduction_of_not hcall, or_iff_right hcall] at hiff
    exact hiff
  | call name segments args =>
    cases segments with
    | nil =>
      have hiff := pipeInject_lowered_iff name (args.map (·.value.ast)) (args.map (·.name)) (by simp)
        piped x.ast
      have hargs : (args.map Argument.ast).map (·.2) = args.map (·.value.ast) := List.map_map ..
      have hnames : (args.map Argument.ast).map (·.1) = args.map (·.name) := List.map_map ..
      simp only [Stage.direct, Stage.withFirst, Stage.ast, fullKey_singleton, callNode, List.isEmpty_nil, if_true, hargs, hnames,
        List.map_cons]
      exact hiff
    | cons segment segments =>
      simp only [Stage.direct, Stage.withFirst, Stage.ast, callNode, List.isEmpty_cons, Bool.false_eq_true, if_false, pipeInjectArgument,
        Stage.Lowered, not_false_eq_true, and_true, List.map_cons]
      rw [argNamesOf_length (by simp)]
      simp [Argument.ast, Parsed.group]
  | producer name segments args field =>
    simp only [Stage.direct, Stage.withFirst, Stage.ast, pipeInjectArgument, Stage.Lowered, not_false_eq_true, and_true, List.map_cons]
    rw [argNamesOf_length (by simp)]
    simp [Argument.ast, Parsed.group]

/-- The pipeline gives the tree of the nested calls, and a pipeline in parentheses can be put in place of its first
    stages. -/
def IsCallSyntax (x : Parsed D) (stages : List (Stage D)) : Prop :=
  exprAstParse (pipeTokens x stages) = exprAstParse (direct x stages).tokens ∧
    ∀ front s, stages = front ++ [s] →
      exprAstParse (pipeTokens x stages) = exprAstParse (.lparen :: (pipeTokens x front ++ .rparen :: .pipe :: s.tokens))

theorem foldl_injected_eq_iff (stages : List (Stage D)) (x : Parsed D) (piped : Ast D) :
    stages.foldl (fun a s => s.injected a) piped = (stages.foldl (fun x s => s.direct x) x).ast ↔ piped = x.ast ∧ Unlowered x stages := by
  induction stages generalizing x piped with
  | nil => simp [Unlowered]
  | cons s stages ih =>
    rw [List.foldl_cons, List.foldl_cons, ih, Stage.injected_eq_iff, Unlowered, and_assoc]

/-- Pipelines associate to the left, and a pipeline is call syntax if and only if no stage is lowered. -/
theorem isCallSyntax_iff (x : Parsed D) (stages : List (Stage D)) : IsCallSyntax x stages ↔ Unlowered x stages := by
  have hleft : ∀ front s, stages = front ++ [s] →
      exprAstParse (pipeTokens x stages) = exprAstParse (.lparen :: (pipeTokens x front ++ .rparen :: .pipe :: s.tokens)) := by
    rintro front s rfl
    let group : Parsed D := ⟨pipeTokens x front, _, parse_pipeTokens x front⟩
    have hgroup : pipeTokens group [s] = .lparen :: (pipeTokens x front ++ .rparen :: .pipe :: s.tokens) := by
      simp [pipeTokens, Parsed.group, group]
    rw [← hgroup, parse_pipeTokens, parse_pipeTokens, List.foldl_append]
  rw [IsCallSyntax, and_iff_left hleft, parse_pipeTokens, (direct x stages).parses, Except.ok.injEq, direct, foldl_injected_eq_iff]
  exact and_iff_right rfl

theorem window_max_differs :
    exprAstParse ([.lparen, .identifier "window", .lparen, .identifier "x", .comma, .number 5, .rparen, .rparen, .pipe,
        .identifier "max"] : List (Token Int)) = .ok (.call "max" [.call "window" [.identifier "x", .number 5] [none, none]] [none]) ∧
      exprAstParse ([.identifier "max", .lparen, .lparen, .identifier "window", .lparen, .identifier "x", .comma, .number 5, .rparen,
        .rparen, .rparen] : List (Token Int)) = .ok (.call "__cxpr_window_highest" [.identifier "x", .number 5] [none, none]) ∧
      Ast.call "max" [.call "window" [.identifier "x", .number (5 : Int)] [none, none]] [none] ≠
        .call "__cxpr_window_highest" [.identifier "x", .number 5] [none, none] :=
  ⟨rfl, rfl, fun h => absurd (Ast.call.inj h).1 (by decide)⟩

end Cxpr.Parser
