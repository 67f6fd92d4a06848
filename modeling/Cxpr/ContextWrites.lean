import Mathlib.Data.List.Induction
import Cxpr.Context

/-! What `cxpr_context_get_typed` returns after a sequence of writes to a root context. The stores of `bools`,
    `strings`, `arrays` and `structs` always follow the last write; an `int64s` entry outlives the string, struct and
    array setters, and a `vars` entry is never removed at all, so both can shadow a later write. -/

namespace Cxpr

inductive Write (D : Type) where
  | set (name : String) (value : D)
  | setBool (name : String) (value : Bool)
  | setInt64 (name : String) (value : Int64)
  | setString (name : String) (value : String)
  | setValue (name : String) (value : Value D)

namespace Write
variable {D : Type}

def name : Write D → String
  | .set n _ | .setBool n _ | .setInt64 n _ | .setString n _ | .setValue n _ => n

/-- The value written, with its type. `cxpr_context_set_value` ignores a null, a timestamp and a duration. -/
def value? : Write D → Option (Value D)
  | .set _ d => some (.number d)
  | .setBool _ b => some (.bool b)
  | .setInt64 _ i => some (.int64 i)
  | .setString _ s => some (.string s)
  | .setValue _ .null | .setValue _ (.timestamp _) | .setValue _ (.duration _) => none
  | .setValue _ v => some v

def apply : Write D → Frame D → Frame D
  | .set n d, f => f.set n d
  | .setBool n b, f => f.setBool n b
  | .setInt64 n i, f => f.setInt64 n i
  | .setString n s, f => f.setString n s
  | .setValue n v, f => f.setValue n v

def run (ws : List (Write D)) (ctx : Context D) : Context D :=
  ws.foldl (fun ctx w => ctx.update w.apply) ctx

def writesTo (ws : List (Write D)) (n : String) : List (Value D) :=
  ws.filterMap fun w => if w.name = n then w.value? else none

def lastWrite (ws : List (Write D)) (n : String) : Option (Value D) := (writesTo ws n).getLast?

/-! ### The entries that outlive a write -/

def lastNumber : List (Value D) → Option D :=
  List.foldl (fun acc v => match v with | .number d => some d | _ => acc) none

/-- The `int64s` entry left by the writes: a number or a bool write removes it, a string, struct or array write
    does not. -/
def int64Left : List (Value D) → Option Int64 :=
  List.foldl (fun acc v => match v with
    | .int64 i => some i
    | .number _ | .bool _ => none
    | _ => acc) none

@[simp] theorem lastNumber_concat (vs : List (Value D)) (v : Value D) :
    lastNumber (vs ++ [v]) = match v with | .number d => some d | _ => lastNumber vs := by
  simp [lastNumber]

@[simp] theorem int64Left_concat (vs : List (Value D)) (v : Value D) :
    int64Left (vs ++ [v]) = match v with
      | .int64 i => some i
      | .number _ | .bool _ => none
      | _ => int64Left vs := by
  simp [int64Left]

/-- The last value is a string or an array and an `int64s` entry of an earlier one is still there, or it is a struct
    and such an entry or a `vars` entry is. -/
def Shadowed (vs : List (Value D)) : Prop :=
  match vs.getLast? with
  | some (.string _) | some (.array _) => (int64Left vs).isSome
  | some (.struct _) => (int64Left vs).isSome ∨ (lastNumber vs).isSome
  | _ => False

variable {w : Write D}

theorem apply_eq_setValue {v : Value D} (h : w.value? = some v) (f : Frame D) :
    w.apply f = f.setValue w.name v := by
  cases w with
  | setValue n u =>
    cases u with
    | null | timestamp | duration => cases h
    | number | bool | int64 | string | array | struct =>
      obtain rfl := Option.some.inj h
      rfl
  | set | setBool | setInt64 | setString =>
    obtain rfl := Option.some.inj h
    rfl

theorem apply_eq_self (h : w.value? = none) (f : Frame D) : w.apply f = f := by
  cases w with
  | setValue n u =>
    cases u with
    | null | timestamp | duration => rfl
    | number | bool | int64 | string | array | struct => cases h
  | set | setBool | setInt64 | setString => cases h

theorem value?_stored {v : Value D} (h : w.value? = some v) :
    v.type ≠ .null ∧ v.type ≠ .timestamp ∧ v.type ≠ .duration := by
  cases w with
  | setValue n u =>
    cases u with
    | null | timestamp | duration => cases h
    | number | bool | int64 | string | array | struct =>
      obtain rfl := Option.some.inj h
      simp [Value.type]
  | set | setBool | setInt64 | setString =>
    obtain rfl := Option.some.inj h
    simp [Value.type]

end Write

section
variable {D : Type} {f : Frame D} {n m : String} {v : Value D} {vs : List (Value D)}

structure StoresFollow (f : Frame D) (n : String) (vs : List (Value D)) : Prop where
  scope : f.expressionScope = none
  cachedStructs : f.cachedStructs.lookup n = none
  vars : f.vars.lookup n = Write.lastNumber vs
  int64s : f.int64s.lookup n = Write.int64Left vs
  bools : f.bools.lookup n = vs.getLast?.bind fun v => match v with | .bool b => some b | _ => none
  strings : f.strings.lookup n = vs.getLast?.bind fun v => match v with | .string s => some s | _ => none
  arrays : f.arrays.lookup n = vs.getLast?.bind fun v => match v with | .array a => some a | _ => none
  structs : f.structs.lookup n = vs.getLast?.bind fun v => match v with | .struct s => some s | _ => none

theorem storesFollow_new (n : String) : StoresFollow ({} : Frame D) n [] := by
  constructor <;> rfl

theorem StoresFollow.setValue (h : StoresFollow f n vs)
    (hv : v.type ≠ .null ∧ v.type ≠ .timestamp ∧ v.type ≠ .duration) :
    StoresFollow (f.setValue n v) n (vs ++ [v]) := by
  obtain ⟨scope, cached, vars, int64s, bools, strings, arrays, structs⟩ := h
  cases v <;> simp only [Value.type, ne_eq, not_true_eq_false, false_and, and_false] at hv <;>
    constructor <;>
    simp [Frame.setValue, Frame.set, Frame.setBool, Frame.setInt64, Frame.setString, Frame.setStruct,
      scope, cached, vars, int64s]

theorem StoresFollow.setValue_of_ne (h : StoresFollow f n vs) (hne : n ≠ m) :
    StoresFollow (f.setValue m v) n vs := by
  obtain ⟨scope, cached, vars, int64s, bools, strings, arrays, structs⟩ := h
  cases v <;> constructor <;>
    simp [Frame.setValue, Frame.set, Frame.setBool, Frame.setInt64, Frame.setString, Frame.setStruct, *]

theorem storesFollow_run (ws : List (Write D)) (n : String) :
    ∃ f, Write.run ws Context.new = [f] ∧ StoresFollow f n (Write.writesTo ws n) := by
  induction ws using List.reverseRecOn with
  | nil => exact ⟨{}, rfl, storesFollow_new n⟩
  | append_singleton ws w ih =>
    obtain ⟨f, hf, hs⟩ := ih
    refine ⟨w.apply f, by simp only [Write.run, List.foldl_append] at hf ⊢; rw [hf]; rfl, ?_⟩
    cases hw : w.value? with
    | none =>
      simpa [Write.writesTo, Write.apply_eq_self hw, hw] using hs
    | some v =>
      rw [Write.apply_eq_setValue hw]
      by_cases hn : w.name = n
      · have := hs.setValue (Write.value?_stored hw)
        simpa [Write.writesTo, hn, hw] using this
      · simpa [Write.writesTo, hn] using hs.setValue_of_ne (v := v) (Ne.symm hn)

theorem StoresFollow.getTyped_eq_iff (h : StoresFollow f n vs)
    (hv : ∀ v ∈ vs, v.type ≠ .null ∧ v.type ≠ .timestamp ∧ v.type ≠ .duration) :
    f.getTyped n = vs.getLast? ↔ ¬ Write.Shadowed vs := by
  obtain ⟨scope, cached, vars, int64s, bools, strings, arrays, structs⟩ := h
  rcases List.eq_nil_or_concat vs with rfl | ⟨us, v, rfl⟩
  · simp [Frame.getTyped, scope, cached, vars, int64s, bools, strings, arrays, structs, Write.lastNumber,
      Write.int64Left, Write.Shadowed]
  · have hlast := hv v (by simp)
    -- the writes before the last one only matter through the entries they left in `int64s` and `vars`
    simp only [Frame.getTyped, scope, cached, vars, int64s, bools, strings, arrays, structs, Write.Shadowed]
    cases v <;> simp only [Value.type, ne_eq, not_true_eq_false, false_and, and_false] at hlast <;>
      simp only [List.concat_eq_append, List.getLast?_concat, Write.lastNumber_concat, Write.int64Left_concat]
    case number | bool | int64 => simp
    case string | array => cases Write.int64Left us <;> simp
    case struct => cases Write.int64Left us <;> cases Write.lastNumber us <;> simp
end

/-- Last-write-wins on one state reached by `ws`: every name reads as the last write to it, and a further write
    changes no other name. -/
def LastWriteWins {D : Type} (ws : List (Write D)) : Prop :=
  (∀ n, (Write.run ws Context.new).getTyped n = Write.lastWrite ws n) ∧
  ∀ (w : Write D) (n : String), w.name ≠ n →
    ((Write.run ws Context.new).update w.apply).getTyped n = (Write.run ws Context.new).getTyped n

theorem writesTo_stored {D : Type} (ws : List (Write D)) (n : String) :
    ∀ v ∈ Write.writesTo ws n, v.type ≠ .null ∧ v.type ≠ .timestamp ∧ v.type ≠ .duration := by
  intro v hv
  obtain ⟨w, -, hw⟩ := List.mem_filterMap.mp hv
  split at hw
  · exact Write.value?_stored hw
  · cases hw

theorem getTyped_update_of_ne {D : Type} (ctx : Context D) {w : Write D} {n : String} (h : w.name ≠ n) :
    (ctx.update w.apply).getTyped n = ctx.getTyped n := by
  cases ctx with
  | nil => rfl
  | cons f parent =>
    suffices (w.apply f).getTyped n = f.getTyped n by
      simp only [Context.update, Context.getTyped, this]
    cases hw : w.value? with
    | none => rw [Write.apply_eq_self hw]
    | some v =>
      rw [Write.apply_eq_setValue hw]
      have h' := Ne.symm h
      cases v <;> simp [Frame.getTyped, Frame.setValue, Frame.set, Frame.setBool, Frame.setInt64, Frame.setString,
        Frame.setStruct, h']

end Cxpr
