import Cxpr.Eval.Tree

/-! Which reported types rest on a guess. `cxpr_typecheck` takes an arithmetic operand without a static type for a
    number, a conditional with one typed branch for that type, and so on; and minus for a number on any operand. -/

namespace Cxpr.Typecheck
open Eval
variable {D : Type} [Double D]

/-- The type that the checker gives a node: none, one that may turn out wrong, or a sure one. -/
inductive Certainty where
  | untyped
  | guessed
  | sure (type : ValueType)
  deriving DecidableEq

def Certainty.doubted : Certainty → Certainty
  | .sure _ => .guessed
  | c => c

/-- What is certain about a node: its type, and as in `Static` the literals behind it, if they are the ones that are
    evaluated. -/
inductive Known where
  | mk (type : Certainty) (literal : Shape Known) (resolved : Option (Shape Known))

namespace Known

def type : Known → Certainty
  | .mk t _ _ => t

def literal : Known → Shape Known
  | .mk _ l _ => l

def resolved : Known → Option (Shape Known)
  | .mk _ _ r => r

def scalar (type : Certainty) : Known := .mk type .other (some .other)

end Known

omit [Double D] in
def plainIf (reg : Registry D) : Bool :=
  match reg.find "if" with
  | none => true
  | some entry =>
    (entry.astFuncHandler <|> entry.astFunc).isNone &&
      !(entry.structProducer.isSome && entry.syncFunc.isNone && entry.valueFunc.isNone) &&
      entry.modelProducer.isNone && entry.definedBody.isNone && entry.definedReturnFields.isEmpty &&
      !(entry.structFields.isSome && entry.structProducer.isNone && entry.syncFunc.isSome)

omit [Double D] in
def unserved (reg : Registry D) : Ast D → Bool
  | .index target i =>
    (match reg.selectIndexCapability (.index target i) with | .ok none => true | _ => false) && unserved reg target
  | target => match reg.selectIndexCapability target with | .ok none => true | _ => false

def certainArithmetic : Certainty → Certainty → Certainty
  | .sure .struct, _ | _, .sure .struct => .sure .struct
  | .sure .int64, .sure .int64 | .sure .int64, .untyped | .untyped, .sure .int64 => .sure .int64
  | .sure .number, .sure .number => .sure .number
  | _, _ => .guessed

def certainBinary (op : BinaryOp) (l r : Certainty) : Certainty :=
  match op with
  | .plus | .minus | .star | .slash => certainArithmetic l r
  | .percent | .power => .sure .number
  | .lt | .lte | .gt | .gte | .eq | .neq | .and | .or => .sure .bool

def certainUnary (op : UnaryOp) (a : Certainty) : Certainty :=
  match op with
  | .minus => if a = .sure .number then .sure .number else .guessed
  | .not => .sure .bool

def certainJoin (t e : Certainty) : Certainty := if t = e then t else .guessed

def certainElement : List Known → Certainty
  | [] => .untyped
  | k :: ks => if ks.all (·.type = k.type) then k.type else .guessed

omit [Double D] in
def declared (reg : Registry D) (name : String) : Certainty :=
  ((reg.find name).bind (·.returnType)).elim .untyped .sure

omit [Double D] in
def certainCall (reg : Registry D) (name : String) (argNames : List (Option String)) (args : List Known) : Certainty :=
  match name == "if", args with
  | true, [_, t, e] =>
    if plainIf reg && !Ast.callUsesNamedArgs 3 argNames then certainJoin t.type e.type
    else (certainJoin t.type e.type).doubted
  | _, _ => declared reg name

def certainField (base : Known) (field : String) : Certainty :=
  match base.resolved with
  | some (.record names fields) => ((names.zip fields).find? (·.1 == field)).elim .untyped (·.2.type)
  | some _ => .untyped
  | none => .guessed

def certainSelected (ks : List Known) (index : Ast D) : Known :=
  match literalElement ks index with
  | some k => .mk k.type .other (some k.literal)
  | none => .scalar (certainElement ks)

def certainIndex (reg : Registry D) (target index : Ast D) (known : Known) : Known :=
  match reg.selectIndexCapability target, known.resolved with
  | .ok (some capability), _ =>
    .mk (if isIdentifier target || isIndex target || reg.lookbackResolver.isSome then .guessed
      else .sure capability.resultType) .other none
  | _, some (.array ks) =>
    if reg.lookbackResolver.isNone && unserved reg target then certainSelected ks index
    else .mk (certainSelected ks index).type.doubted .other none
  | _, some _ => .scalar .untyped
  | _, none => .mk .guessed .other none

mutual

def certain (reg : Registry D) : Ast D → Known
  | .number _ => .scalar (.sure .number)
  | .int64 _ => .scalar (.sure .int64)
  | .bool _ => .scalar (.sure .bool)
  | .string _ => .scalar (.sure .string)
  | .array es => .mk (.sure .array) (.array (certainList reg es)) (some (.array (certainList reg es)))
  | .record names values =>
    .mk (.sure .struct) (.record names (certainList reg values)) (some (.record names (certainList reg values)))
  | .identifier _ | .param _ | .fieldAccess _ _ | .chainAccess _ | .producerAccess _ _ _ _ => .scalar .untyped
  | .fieldOf base field => .scalar (certainField (certain reg base) field)
  | .binary op l r => .scalar (certainBinary op (certain reg l).type (certain reg r).type)
  | .unary op a => .scalar (certainUnary op (certain reg a).type)
  | .call name args argNames => .scalar (certainCall reg name argNames (certainList reg args))
  | .index target i => certainIndex reg target i (certain reg target)
  | .ternary _ t e => .scalar (certainJoin (certain reg t).type (certain reg e).type)

def certainList (reg : Registry D) : List (Ast D) → List Known
  | [] => []
  | a :: as => certain reg a :: certainList reg as

end

/-! ### Values that fit -/

mutual

/-- A value has the type that is certain about a node, and the parts of its literal. -/
inductive Fits : Known → Value D → Prop
  | mk {type : Certainty} {literal : Shape Known} {resolved : Option (Shape Known)} {v : Value D}
      (htype : ∀ t, type = .sure t → v.type = t) (hliteral : FitsShape literal v)
      (hresolved : ∀ shape, resolved = some shape → FitsShape shape v) : Fits (.mk type literal resolved) v

inductive FitsShape : Shape Known → Value D → Prop
  | other (v : Value D) : FitsShape .other v
  | array {ks : List Known} {vs : List (Value D)} (h : FitsList ks vs) : FitsShape (.array ks) (.array vs)
  | record {names : List String} {ks : List Known} {fields : List (String × Value D)} (h : FitsFields names ks fields) :
      FitsShape (.record names ks) (.struct fields)

inductive FitsList : List Known → List (Value D) → Prop
  | nil : FitsList [] []
  | cons {k : Known} {v : Value D} {ks : List Known} {vs : List (Value D)} (h : Fits k v) (hs : FitsList ks vs) :
      FitsList (k :: ks) (v :: vs)

inductive FitsFields : List String → List Known → List (String × Value D) → Prop
  | noNames (ks : List Known) : FitsFields [] ks []
  | noValues (names : List String) : FitsFields names [] []
  | cons {k : Known} {v : Value D} {name : String} {names : List String} {ks : List Known}
      {fields : List (String × Value D)} (h : Fits k v) (hs : FitsFields names ks fields) :
      FitsFields (name :: names) (k :: ks) ((name, v) :: fields)

end

omit [Double D]

variable {k : Known} {v : Value D} {ks : List Known} {vs : List (Value D)}

theorem Fits.type (h : Fits k v) {t : ValueType} (ht : k.type = .sure t) : v.type = t := by
  cases h with
  | mk htype _ _ => exact htype t ht

theorem Fits.literal (h : Fits k v) : FitsShape k.literal v := by
  cases h with
  | mk _ hliteral _ => exact hliteral

theorem Fits.resolved (h : Fits k v) {shape : Shape Known} (hk : k.resolved = some shape) :
    FitsShape shape v := by
  cases h with
  | mk _ _ hresolved => exact hresolved shape hk

theorem fits_scalar {type : Certainty} (h : ∀ t, type = .sure t → v.type = t) :
    Fits (.scalar type) v :=
  .mk h (.other v) fun _ hshape => Option.some.inj hshape ▸ .other v

theorem fits_unsure {type : Certainty} (h : ∀ t, type ≠ .sure t) (v : Value D) : Fits (.mk type .other none) v :=
  .mk (fun t ht => (h t ht).elim) (.other v) fun _ hshape => nomatch hshape

theorem fits_untyped (v : Value D) : Fits (.scalar .untyped) v := fits_scalar fun _ ht => nomatch ht

theorem doubted_ne_sure (c : Certainty) (t : ValueType) : c.doubted ≠ .sure t := by
  cases c <;> nofun

theorem FitsList.get (h : FitsList ks vs) {i : Nat}
    (hk : ks[i]? = some k) (hv : vs[i]? = some v) : Fits k v := by
  induction ks generalizing vs i with
  | nil => simp at hk
  | cons k' ks ih =>
    cases h with
    | cons hhead htail =>
      cases i with
      | zero =>
        simp only [List.getElem?_cons_zero, Option.some.injEq] at hk hv
        exact hk ▸ hv ▸ hhead
      | succ i => exact ih htail hk hv

theorem FitsList.length (h : FitsList ks vs) : ks.length = vs.length := by
  induction ks generalizing vs with
  | nil =>
    cases h
    rfl
  | cons k ks ih =>
    cases h with
    | cons _ htail => simp [ih htail]

theorem FitsList.element (h : FitsList ks vs) {i : Nat}
    (hv : vs[i]? = some v) {t : ValueType} (ht : certainElement ks = .sure t) : v.type = t := by
  obtain ⟨k, hk⟩ : ∃ k, ks[i]? = some k := by
    obtain ⟨hi, -⟩ := List.getElem?_eq_some_iff.mp hv
    exact ⟨_, List.getElem?_eq_getElem (h.length ▸ hi)⟩
  refine (h.get hk hv).type ?_
  cases ks with
  | nil => simp at hk
  | cons k' ks =>
    simp only [certainElement] at ht
    split at ht
    · rename_i hall
      rcases List.mem_cons.mp (List.mem_of_getElem? hk) with rfl | hmem
      · exact ht
      · have := List.all_eq_true.mp hall k hmem
        rwa [decide_eq_true_eq, ht] at this
    · cases ht

theorem FitsFields.field {names : List String} {ks : List Known} {fields : List (String × Value D)}
    (h : FitsFields names ks fields) {field : String} {v : Value D} (hv : structGetField fields field = some v)
    {t : ValueType} (ht : ((names.zip ks).find? (·.1 == field)).elim .untyped (·.2.type) = .sure t) : v.type = t := by
  induction names generalizing ks fields with
  | nil => simp at ht
  | cons name names ih =>
    cases h with
    | noValues => simp at ht
    | cons hhead htail =>
      simp only [List.zip_cons_cons, List.find?_cons] at ht
      simp only [structGetField, List.find?_cons] at hv
      by_cases hname : (name == field) = true
      · simp only [hname, Option.map_some, Option.some.injEq, Option.elim_some] at hv ht
        exact hv ▸ hhead.type ht
      · simp only [hname] at hv ht
        exact ih htail hv ht

end Cxpr.Typecheck
