import Cxpr.Ir.Api
import Cxpr.Ir.CodegenArray

/-! The C backend agrees with the typed executor, on a context that holds the arguments: exactly when the names of the
    arguments make good C identifiers and the constants good C constants, as long as the native calls are honest. -/

namespace Cxpr.Ir.Codegen
open Eval
variable {D : Type}

inductive Argument (D : Type) where
  | number (d : D)
  | bool (b : Bool)

def Argument.value : Argument D → Value D
  | .number d => .number d
  | .bool b => .bool b

def Argument.double [Double D] : Argument D → D
  | .number d => d
  | .bool b => Double.ofBool b

theorem Argument.isDouble [Double D] (x : Argument D) : IsDouble x.value x.double := by
  cases x with
  | number d => exact .number d
  | bool b => exact .bool b

def ProgramArg.key (arg : ProgramArg) : ArgKind × Option String := (arg.kind, arg.name)

def bindArgument (f : Cxpr.Frame D) (arg : ProgramArg) (x : Argument D) : Cxpr.Frame D :=
  match arg.kind, arg.name with
  | .var, some name => f.setValue name x.value
  | .param, some name => f.setParamValue name x.value
  | _, _ => f

def argumentContext (args : List ProgramArg) (arguments : List (Argument D)) : Context D :=
  [(args.zip arguments).foldl (fun f (arg, x) => bindArgument f arg x) {}]

/-! ### What the context holds -/

structure Scalars (f : Cxpr.Frame D) : Prop where
  scope : f.expressionScope = none
  memo : f.evalMemoDepth = 0
  int64s : f.int64s = ∅
  strings : f.strings = ∅
  stringParams : f.stringParams = ∅
  arrays : f.arrays = ∅

def cell (f : Cxpr.Frame D) (kind : ArgKind) (name : String) : Option Bool × Option D :=
  match kind with
  | .var => (f.bools.lookup name, f.vars.lookup name)
  | .param => (f.boolParams.lookup name, f.params.lookup name)
  | .slot => (none, none)

def Argument.cell : Argument D → Option Bool × Option D
  | .number d => (none, some d)
  | .bool b => (some b, none)

section
variable {f : Cxpr.Frame D} {arg : ProgramArg} {x : Argument D} {kind : ArgKind} {name : String}

theorem erase_empty {α : Type} (name : String) : AList.erase name (∅ : NameMap α) = ∅ := rfl

theorem Scalars.bindArgument (h : Scalars f) (arg : ProgramArg) (x : Argument D) : Scalars (bindArgument f arg x) := by
  obtain ⟨scope, memo, int64s, strings, stringParams, arrays⟩ := h
  unfold Codegen.bindArgument
  split
  · cases x <;>
      exact ⟨scope, memo, by simp [Argument.value, Frame.setValue, Frame.set, Frame.setBool, int64s, erase_empty],
        by simp [Argument.value, Frame.setValue, Frame.set, Frame.setBool, strings, erase_empty], stringParams,
        by simp [Argument.value, Frame.setValue, Frame.set, Frame.setBool, arrays, erase_empty]⟩
  · cases x <;>
      exact ⟨scope, memo, int64s, strings,
        by simp [Argument.value, Frame.setParamValue, Frame.setParam, Frame.setParamBool, stringParams, erase_empty], arrays⟩
  · exact ⟨scope, memo, int64s, strings, stringParams, arrays⟩

theorem cell_bindArgument_of_ne (h : arg.key ≠ (kind, some name)) :
    cell (bindArgument f arg x) kind name = cell f kind name := by
  unfold bindArgument
  split
  · rename_i n hkind hname
    have hne : kind = .var → name ≠ n := by
      rintro rfl rfl
      exact h (by rw [ProgramArg.key, hkind, hname])
    cases kind <;> cases x <;>
      simp_all [cell, Argument.value, Frame.setValue, Frame.set, Frame.setBool, AList.lookup_insert_ne, AList.lookup_erase_ne]
  · rename_i n hkind hname
    have hne : kind = .param → name ≠ n := by
      rintro rfl rfl
      exact h (by rw [ProgramArg.key, hkind, hname])
    cases kind <;> cases x <;>
      simp_all [cell, Argument.value, Frame.setParamValue, Frame.setParam, Frame.setParamBool, AList.lookup_insert_ne,
        AList.lookup_erase_ne]
  · rfl

theorem cell_bindArgument (hkey : arg.key = (kind, some name)) (hslot : kind ≠ .slot)
    (h : cell f kind name = (none, none)) : cell (bindArgument f arg x) kind name = x.cell := by
  obtain ⟨hkind, hname⟩ := Prod.mk.inj hkey
  obtain ⟨hbool, hnumber⟩ := Prod.ext_iff.mp h
  unfold bindArgument
  rw [hkind, hname]
  cases kind with
  | slot => exact absurd rfl hslot
  | var =>
    cases x <;> simp_all [cell, Argument.value, Argument.cell, Frame.setValue, Frame.set, Frame.setBool, AList.lookup_insert]
  | param =>
    cases x <;>
      simp_all [cell, Argument.value, Argument.cell, Frame.setParamValue, Frame.setParam, Frame.setParamBool,
        AList.lookup_insert]

theorem foldl_scalars (l : List (ProgramArg × Argument D)) (h : Scalars f) :
    Scalars (l.foldl (fun f (arg, x) => Codegen.bindArgument f arg x) f) := by
  induction l generalizing f with
  | nil => exact h
  | cons p l ih => exact ih (h.bindArgument p.1 p.2)

theorem foldl_cell_of_notMem {l : List (ProgramArg × Argument D)} (h : (kind, some name) ∉ l.map (·.1.key)) :
    cell (l.foldl (fun f (arg, x) => bindArgument f arg x) f) kind name = cell f kind name := by
  induction l generalizing f with
  | nil => rfl
  | cons p l ih =>
    rw [List.map_cons, List.mem_cons, not_or] at h
    rw [List.foldl_cons, ih h.2]
    exact cell_bindArgument_of_ne fun heq => h.1 heq.symm

theorem foldl_cell {l : List (ProgramArg × Argument D)} (hdistinct : (l.map (·.1.key)).Nodup) (hmem : (arg, x) ∈ l)
    (hkey : arg.key = (kind, some name)) (hslot : kind ≠ .slot) (h : cell f kind name = (none, none)) :
    cell (l.foldl (fun f (arg, x) => bindArgument f arg x) f) kind name = x.cell := by
  induction l generalizing f with
  | nil => cases hmem
  | cons p l ih =>
    obtain ⟨hnew, hdistinct⟩ := List.nodup_cons.mp hdistinct
    rw [List.foldl_cons]
    rcases List.mem_cons.mp hmem with rfl | hmem
    · rw [foldl_cell_of_notMem (hkey ▸ hnew)]
      exact cell_bindArgument hkey hslot h
    · refine ih hdistinct hmem ?_
      have hne : p.1.key ≠ (kind, some name) := fun heq =>
        hnew (List.mem_map.mpr ⟨(arg, x), hmem, hkey.trans heq.symm⟩)
      rw [cell_bindArgument_of_ne hne, h]

end

section
variable {args : List ProgramArg} {arguments : List (Argument D)} {i : Nat} {name : String} {arg : ProgramArg}
  {x : Argument D}

theorem argumentContext_cell {kind : ArgKind} (hdistinct : (args.map ProgramArg.key).Nodup)
    (hlength : arguments.length = args.length) (harg : args[i]? = some arg) (hx : arguments[i]? = some x)
    (hkey : arg.key = (kind, some name)) (hslot : kind ≠ .slot) :
    ∃ f, argumentContext args arguments = [f] ∧ Scalars f ∧ cell f kind name = x.cell := by
  have hkeys : (args.zip arguments).map (·.1.key) = args.map ProgramArg.key := by
    calc (args.zip arguments).map (·.1.key) = ((args.zip arguments).map Prod.fst).map ProgramArg.key := by
          rw [List.map_map]; rfl
      _ = args.map ProgramArg.key := by rw [List.map_fst_zip (Nat.le_of_eq hlength.symm)]
  have hmem : (arg, x) ∈ args.zip arguments := by
    refine List.mem_of_getElem? (i := i) ?_
    rw [List.getElem?_zip_eq_some]
    exact ⟨harg, hx⟩
  refine ⟨_, rfl, foldl_scalars _ ⟨rfl, rfl, rfl, rfl, rfl, rfl⟩, foldl_cell (hkeys ▸ hdistinct) hmem hkey hslot ?_⟩
  cases kind <;> rfl

variable [Double D]

theorem loadVariableTyped_argumentContext (hdistinct : (args.map ProgramArg.key).Nodup)
    (hlength : arguments.length = args.length) (harg : args[i]? = some arg) (hx : arguments[i]? = some x)
    (hkey : arg.key = (.var, some name)) :
    loadVariableTyped (argumentContext args arguments) name = some x.value := by
  obtain ⟨f, hf, hscalars, hcell⟩ := argumentContext_cell hdistinct hlength harg hx hkey nofun
  obtain ⟨hbool, hnumber⟩ := Prod.mk.inj hcell
  have hscope := hscalars.scope
  rw [hf]
  cases x <;>
    simp_all [loadVariableTyped, expressionScope, Context.getTyped, Frame.getTyped, Argument.cell, Argument.value,
      hscalars.int64s, hscalars.strings, hscalars.arrays]

theorem loadParam_argumentContext (hdistinct : (args.map ProgramArg.key).Nodup)
    (hlength : arguments.length = args.length) (harg : args[i]? = some arg) (hx : arguments[i]? = some x)
    (hkey : arg.key = (.param, some name)) :
    loadParamTyped (argumentContext args arguments) name = some x.value ∧
      ∀ d, (argumentContext args arguments).getParam name = some d → d = x.double := by
  obtain ⟨f, hf, hscalars, hcell⟩ := argumentContext_cell hdistinct hlength harg hx hkey nofun
  obtain ⟨hbool, hnumber⟩ := Prod.mk.inj hcell
  rw [hf]
  cases x <;>
    simp_all [loadParamTyped, Context.getParamBool, Context.getParamString, Context.getParam, Argument.cell,
      Argument.value, Argument.double, hscalars.stringParams]

theorem memo_argumentContext (args : List ProgramArg) (arguments : List (Argument D)) (ast : Ast D) (v : Value D) :
    memoGet ast (argumentContext args arguments) = .ok (none, argumentContext args arguments) ∧
      memoSet ast v (argumentContext args arguments) = .ok ((), argumentContext args arguments) := by
  have hmemo := (foldl_scalars (args.zip arguments) (f := {}) ⟨rfl, rfl, rfl, rfl, rfl, rfl⟩).memo
  exact ⟨if_pos hmemo, if_pos hmemo⟩

end

section
variable [Double D] {args : List ProgramArg} {arguments : List (Argument D)} {reg : Registry D} {depth size : Nat}

variable {name : String}

omit [Double D] in
theorem lookup_zip {names : List String} {ds : List D} {i : Nat} {d : D} (hnodup : names.Nodup)
    (hname : names[i]? = some name) (hd : ds[i]? = some d) : (names.zip ds).lookup name = some d := by
  induction names generalizing ds i with
  | nil => cases hname
  | cons n names ih =>
    obtain ⟨hnew, hnodup⟩ := List.nodup_cons.mp hnodup
    cases ds with
    | nil => cases hd
    | cons e ds =>
      rw [List.zip_cons_cons, List.lookup_cons]
      cases i with
      | zero =>
        cases hname
        cases hd
        simp
      | succ i =>
        have hne : (name == n) = false := by
          rw [beq_eq_false_iff_ne]
          rintro rfl
          exact hnew (List.mem_of_getElem? hname)
        rw [hne]
        exact ih hnodup hname hd

theorem findArg_eq_some {kind : ArgKind} {arg : ProgramArg} {i : Nat} (hslot : kind ≠ .slot)
    (h : findArg args kind (some name) 0 = some (arg, i)) : args[i]? = some arg ∧ arg.key = (kind, some name) := by
  have hmem := List.mem_of_find?_eq_some h
  have hcond := List.find?_some h
  rw [List.mem_zipIdx_iff_getElem?] at hmem
  simp only [if_neg hslot, Option.isSome_some, Bool.true_and, Bool.and_eq_true, beq_iff_eq] at hcond
  exact ⟨hmem, Prod.ext hcond.1 hcond.2⟩

theorem loadArg_eq_ok (size : Nat) {kind : ArgKind} {c : String} (h : loadArg args kind name = .ok c)
    (hslot : kind ≠ .slot) (hnames : (argNames args).Nodup) (hlength : arguments.length = args.length) :
    ∃ (i : Nat) (arg : ProgramArg) (x : Argument D), args[i]? = some arg ∧ arguments[i]? = some x ∧
      arg.key = (kind, some name) ∧
      CFrame.param ⟨(argNames args).zip (arguments.map Argument.double), size⟩ c = some x.double := by
  unfold loadArg at h
  split at h
  · rename_i arg i hfind
    cases h
    obtain ⟨harg, hkey⟩ := findArg_eq_some hslot hfind
    have hi : i < arguments.length := hlength ▸ (List.getElem?_eq_some_iff.mp harg).1
    refine ⟨i, arg, arguments[i], harg, List.getElem?_eq_getElem hi, hkey, ?_⟩
    refine lookup_zip (i := i) hnames ?_ ?_
    · simp [argNames, harg]
    · simp [hi]
  · cases h

theorem bound_argumentContext (hdistinct : (args.map ProgramArg.key).Nodup) (hlength : arguments.length = args.length)
    (hnames : (argNames args).Nodup) :
    Bound ⟨(argNames args).zip (arguments.map Argument.double), size⟩ args (contextHost reg depth)
      (argumentContext args arguments) where
  var ip name c hc := by
    obtain ⟨i, arg, x, harg, hx, hkey, hparam⟩ := loadArg_eq_ok size hc nofun hnames hlength
    refine ⟨x.value, x.double, hparam, x.isDouble, ?_⟩
    simp [contextHost, loadVariableTyped_argumentContext hdistinct hlength harg hx hkey]
  param ip name c hc := by
    obtain ⟨i, arg, x, harg, hx, hkey, hparam⟩ := loadArg_eq_ok size hc nofun hnames hlength
    obtain ⟨htyped, hnumber⟩ := loadParam_argumentContext hdistinct hlength harg hx hkey
    exact ⟨x.value, x.double, hparam, x.isDouble, by simp [contextHost, htyped], _, rfl, hnumber⟩
  memoGet func payload := by
    simp only [contextHost]
    split
    · exact (memo_argumentContext args arguments payload (.number Double.zero)).1
    · rfl
  memoSet func payload v := by
    simp only [contextHost]
    split
    · exact (memo_argumentContext args arguments payload v).2
    · rfl
  callTyped func values v t' h := by
    simp only [contextHost] at h
    cases hcall : registryCallTyped reg func.name values with
    | error e =>
      rw [hcall] at h
      cases h
    | ok w =>
      rw [hcall] at h
      cases h
      rfl

end

/-! ### Agreement -/

def cKeywords : List String :=
  ["auto", "break", "case", "char", "const", "continue", "default", "do", "double", "else", "enum", "extern", "float", "for",
    "goto", "if", "inline", "int", "long", "register", "restrict", "return", "short", "signed", "sizeof", "static", "struct",
    "switch", "typedef", "union", "unsigned", "void", "volatile", "while", "_Alignas", "_Alignof", "_Atomic", "_Bool",
    "_Complex", "_Generic", "_Imaginary", "_Noreturn", "_Static_assert", "_Thread_local"]

def CFunction.templateLocals : CFunction → List String
  | .scalar _ => ["_cx_s", "_cx_sp", "_cx_l", "_cx_a", "_cx_b", "_cx_max", "_cx_min", "_cx_v", "_cx_acc"]
  | .array _ => ["_cx_value", "_cx_s", "_cx_e", "_cx_sp", "_cx_ep", "_cx_n", "_cx_start", "_cx_i", "_cx_a", "_cx_b", "_cx_r"]

def CFunction.result (d : D) : CFunction → CResult D
  | .scalar _ => .plain d
  | .array fn => if fn.checked then .checked d 0 else .plain d

section
variable [Double D]

/-- The emitted function agrees with the typed executor: its parameters are good identifiers, its constants have the value
    they stand for, and it returns what the executor returns as a number or a bool. -/
structure Agrees (lib : CLib D) (reg : Registry D) (depth : Nat) (code : Program D) (args : List ProgramArg)
    (arguments : List (Argument D)) (fn : CFunction) : Prop where
  distinct : fn.params.Nodup
  identifiers : ∀ name ∈ fn.params, name ∉ cKeywords ∧ name ∉ fn.templateLocals
  constants : ConstantsRendered code
  returns : ∀ v ctx d, execTyped code (contextHost reg depth) [] (argumentContext args arguments) = some (.ok (v, ctx)) →
    IsDouble v d → fn.Returns lib (arguments.map Argument.double) (fn.result d)

/-- A constant that `%.17g` prints as a constant of C: it is finite and no negative zero. -/
def Printable (d : D) : Prop := Double.isfinite d = true ∧ ¬ (Double.eq d Double.zero = true ∧ Double.signbit d = true)

/-- The arguments get different identifiers that mean nothing else in the function, and the constants are printable. -/
structure Renderable (code : Program D) (args : List ProgramArg) (fn : CFunction) : Prop where
  distinct : (argNames args).Nodup
  identifiers : ∀ name ∈ argNames args, name ∉ cKeywords ∧ name ∉ fn.templateLocals
  constants : ∀ d, .pushConst d ∈ code → Printable d

/-- No argument hides what the function uses of the C library, and every native call of the run is honest. -/
structure Plays (lib : CLib D) (reg : Registry D) (depth : Nat) (code : Program D) (args : List ProgramArg)
    (arguments : List (Argument D)) (fn : CFunction) : Prop where
  library : ∀ name ∈ fn.libraryNames, name ∉ argNames args
  calls : HonestRun lib code (contextHost reg depth) (code.length + 1) { host := argumentContext args arguments }

/-- The two ways to a function of type `double` or to a checked one. -/
inductive Emits (code : Program D) (args : List ProgramArg) (fn : CFunction) : Prop
  | plain (qualifiers name : String) (h : exprCompiledToCFunction code qualifiers "double" name args = .ok fn)
  | checked (qualifiers name : String) (h : exprCompiledToCCheckedFunction code qualifiers name args = .ok fn)

inductive Emission (code : Program D) (args : List ProgramArg) : CFunction → Prop
  | scalar {fn : ScalarFunction} (hparams : fn.signature.params = argNames args) (hsize : fn.stackSize = code.length + 1)
      (hbody : Emitted args code fn.body) : Emission code args (.scalar fn)
  | array {fn : ArrayFunction} (hparams : fn.signature.params = argNames args) (hsize : fn.size = code.length + 1)
      (hbody : ArrayEmitted args code fn.body) : Emission code args (.array fn)

variable {code : Program D} {args : List ProgramArg} {fn : CFunction}

omit [Double D] in
theorem mapM_getElem? {α β : Type} {f : α → Except Error β} {as : List α} {bs : List β} (h : as.mapM f = .ok bs) (i : Nat)
    (a : α) (ha : as[i]? = some a) : ∃ b, bs[i]? = some b ∧ f a = .ok b := by
  induction as generalizing bs i with
  | nil => cases ha
  | cons a' as ih =>
    rw [List.mapM_cons] at h
    obtain ⟨b, hb, h⟩ := bind_eq_ok.mp h
    obtain ⟨bs', hbs, h⟩ := bind_eq_ok.mp h
    cases h
    cases i with
    | zero =>
      cases ha
      exact ⟨b, rfl, hb⟩
    | succ i => exact ih hbs i ha

theorem emission_array {qualifiers returnType name : String} {checked : Bool} {fn : ArrayFunction}
    (h : emitArrayFunction code qualifiers returnType name args checked = .ok fn) :
    Emission code args (.array fn) ∧ fn.checked = checked := by
  obtain ⟨body, hbody, h⟩ := bind_eq_ok.mp h
  cases h
  exact ⟨.array rfl rfl (mapM_getElem? hbody), rfl⟩

theorem Emits.emission (h : Emits code args fn) : Emission code args fn := by
  cases h with
  | plain qualifiers name h =>
    unfold exprCompiledToCFunction at h
    simp only at h
    split at h
    · obtain ⟨fn', hfn, h⟩ := bind_eq_ok.mp h
      cases h
      exact (emission_array hfn).1
    · obtain ⟨body, hbody, h⟩ := bind_eq_ok.mp h
      cases h
      exact .scalar rfl rfl (mapM_getElem? hbody)
  | checked qualifiers name h =>
    unfold exprCompiledToCCheckedFunction at h
    split at h
    · cases h
    · obtain ⟨fn', hfn, h⟩ := bind_eq_ok.mp h
      cases h
      exact (emission_array hfn).1

theorem Emission.params_eq (h : Emission code args fn) : fn.params = argNames args := by
  cases h with
  | scalar hparams => exact hparams
  | array hparams => exact hparams

variable {lib : CLib D} {reg : Registry D} {depth : Nat} {arguments : List (Argument D)}

omit [Double D] in
theorem sees_of_notMem {names : List String} {ds : List D} {size : Nat} {fn : CFunc} (h : fn.name ∉ names) :
    CFrame.sees ⟨names.zip ds, size⟩ fn = true := by
  have hnot : fn.name ∉ (names.zip ds).map (·.1) := by
    intro hmem
    obtain ⟨p, hp, hname⟩ := List.mem_map.mp hmem
    exact h (hname ▸ (List.of_mem_zip hp).1)
  simpa [CFrame.sees] using hnot

theorem execTyped_eq_some {S : Type} {program : Program D} {host : Host S D} {s : S} {r : Value D × S}
    (h : execTyped program host [] s = some (.ok r)) :
    runTyped program host [] (program.length + 1) { host := s } = some (.ok r) := by
  unfold execTyped at h
  split at h
  · cases h
  · exact h

theorem Emission.returns {v : Value D} {ctx : Context D} {d : D} (h : Emission code args fn)
    (hjumps : ∀ (i : Nat) instr target, code[i]? = some instr → instr.target? = some target → i < target)
    (hdistinct : (args.map ProgramArg.key).Nodup) (hlength : arguments.length = args.length)
    (hnames : (argNames args).Nodup) (hconst : ConstantsRendered code)
    (hplays : Plays lib reg depth code args arguments fn)
    (hexec : execTyped code (contextHost reg depth) [] (argumentContext args arguments) = some (.ok (v, ctx)))
    (hd : IsDouble v d) : fn.Returns lib (arguments.map Argument.double) (fn.result d) := by
  have hrun := execTyped_eq_some hexec
  cases h with
  | @scalar fn hparams hsize hbody =>
    have hbound : Bound ⟨(argNames args).zip (arguments.map Argument.double), fn.stackSize⟩ args (contextHost reg depth)
        (argumentContext args arguments) := bound_argumentContext hdistinct hlength hnames
    have hsees : ∀ stmts ∈ fn.body, Sees ⟨(argNames args).zip (arguments.map Argument.double), fn.stackSize⟩ stmts := by
      intro stmts hstmts stmt hstmt c hc
      refine sees_of_notMem (hplays.library c.name ?_)
      exact List.mem_map.mpr ⟨c, List.mem_filterMap.mpr ⟨stmt, List.mem_flatten.mpr ⟨stmts, hstmts, hstmt⟩, hc⟩, rfl⟩
    obtain ⟨d', hd', hv⟩ := run_follows (s := { locals := List.replicate fn.localSlots Double.zero }) hbound hsees hjumps
      hconst hbody (by rw [hsize]; exact Nat.le_succ _) ⟨.nil, Nat.le_refl _, rfl, rfl⟩ hplays.calls hrun
    obtain rfl := hv.unique hd
    refine ⟨code.length + 1, d, ?_, rfl⟩
    rw [hparams]
    exact hd'
  | @array fn hparams hsize hbody =>
    have hbound : Bound ⟨(argNames args).zip (arguments.map Argument.double), fn.size⟩ args (contextHost reg depth)
        (argumentContext args arguments) := bound_argumentContext hdistinct hlength hnames
    have hresult : runArray lib ⟨(argNames args).zip (arguments.map Argument.double), fn.size⟩ fn.checked fn.body {} =
        some (if fn.checked then .checked d 0 else .plain d) :=
      run_arrayFollows (s := {}) hbound hconst hbody (by rw [hsize]; exact Nat.le_succ _)
        ⟨.nil, Nat.le_refl _, rfl, rfl⟩ hrun hd
    refine ⟨fun name hname => hparams ▸ hplays.library name hname, ?_⟩
    rw [hparams]
    exact hresult

theorem exprCompile_jumps {ast : Ast D} {prog : CompiledIr D} (h : exprCompile ast reg = .ok prog) (i : Nat)
    (instr : Instr D) (target : Nat) (hi : prog.code[i]? = some instr) (ht : instr.target? = some target) : i < target := by
  obtain ⟨_, _, h⟩ := bind_eq_ok.mp h
  obtain ⟨code, hcode, h⟩ := bind_eq_ok.mp h
  cases h
  obtain ⟨code, rfl, hdepth, hchecked⟩ := compileWithLocals_code hcode
  exact ((wellFormed_of_checked hdepth hchecked).jumps i instr target hi ht).1

/-- A program whose arguments and constants can be rendered, with honest calls, is emitted as a function that agrees with
    the executor; and none that agrees has other arguments or constants. -/
theorem backend_agrees (hprintf : ∀ d : D, constantOf (Double.formatG 17 d) = some d ↔ Printable d) {ast : Ast D}
    {prog : CompiledIr D} (hcompile : exprCompile ast reg = .ok prog) (hdistinct : (args.map ProgramArg.key).Nodup)
    (hlength : arguments.length = args.length) (hemits : Emits prog.code args fn) :
    (Renderable prog.code args fn ∧ Plays lib reg depth prog.code args arguments fn →
      Agrees lib reg depth prog.code args arguments fn) ∧
      (Agrees lib reg depth prog.code args arguments fn → Renderable prog.code args fn) := by
  have hemission := hemits.emission
  have hparams := hemission.params_eq
  refine ⟨fun ⟨hrender, hplays⟩ => ?_, fun hagrees => ?_⟩
  · have hconst : ConstantsRendered prog.code := fun d hd => (hprintf d).mpr (hrender.constants d hd)
    refine ⟨hparams ▸ hrender.distinct, hparams ▸ hrender.identifiers, hconst, fun v ctx d hexec hd => ?_⟩
    exact hemission.returns (exprCompile_jumps hcompile) hdistinct hlength hrender.distinct hconst hplays hexec hd
  · exact ⟨hparams ▸ hagrees.distinct, hparams ▸ hagrees.identifiers, fun d hd => (hprintf d).mp (hagrees.constants d hd)⟩

end

theorem isInteger_repr (n : Nat) : isInteger n.repr.toList = true := by
  rw [Nat.toList_repr]
  have hdigits : ∀ c ∈ Nat.toDigits 10 n, c.isDigit = true := fun c hc =>
    Nat.isDigit_of_mem_toDigits (by decide) (by decide) hc
  simp only [isInteger, List.all_eq_true.mpr hdigits, Bool.and_true, Bool.not_eq_true', List.isEmpty_eq_false_iff]
  exact Nat.toDigits_ne_nil

theorem ofDigitChars_repr (n : Nat) : Nat.ofDigitChars 10 n.repr.toList 0 = n := by
  rw [Nat.toList_repr]
  exact Nat.ofDigitChars_toDigits (by decide) (by decide)

theorem constantOf_formatG (a : Int) : constantOf (Double.formatG 17 a) = some a := by
  cases a with
  | ofNat n =>
    have htext : (Double.formatG 17 (Int.ofNat n)).toList = n.repr.toList := rfl
    have hliteral : literal n.repr.toList = some (n : Int) := by
      rw [literal, if_pos (isInteger_repr n), ofDigitChars_repr]
      rfl
    unfold constantOf
    rw [htext]
    split
    · rename_i digits hminus
      have hdigit := isInteger_repr n
      rw [hminus] at hdigit
      simp [isInteger] at hdigit
    · exact hliteral
  | negSucc n =>
    have htext : (Double.formatG 17 (Int.negSucc n)).toList = '-' :: (n + 1).repr.toList := by
      show ("-" ++ (n + 1).repr).toList = _
      rw [String.toList_append]
      rfl
    unfold constantOf
    rw [htext]
    simp only [isInteger_repr, if_true, ofDigitChars_repr]
    rfl

theorem printable_int (a : Int) : constantOf (Double.formatG 17 a) = some a ↔ Printable a := by
  refine ⟨fun _ => ⟨rfl, ?_⟩, fun _ => constantOf_formatG a⟩
  rintro ⟨hzero, hsign⟩
  have heq : (a == 0) = true := hzero
  obtain rfl : a = 0 := by simpa using heq
  cases hsign

theorem honestRun_of_noNative [Double D] {S : Type} {lib : CLib D} {program : Program D} {host : Host S D}
    (h : ∀ instr ∈ program, nativeOf instr = none) (fuel : Nat) (m : Machine S D) :
    HonestRun lib program host fuel m := by
  induction fuel generalizing m with
  | zero => trivial
  | succ fuel ih =>
    intro instr m' hinstr _
    refine ⟨fun fn n ds hnative => ?_, ih m'⟩
    rw [h instr (List.mem_of_getElem? hinstr)] at hnative
    cases hnative

theorem colliding_names_disagree :
    let ast : Ast Int := .binary .minus (.identifier "p_x") (.param "x")
    let args : List ProgramArg := [⟨.var, some "p_x", none, 0⟩, ⟨.param, some "x", none, 0⟩]
    (args.map ProgramArg.key).Nodup ∧ ∃ prog fn, exprCompile ast {} = .ok prog ∧ Emits prog.code args fn ∧
      ∀ lib depth, ¬ Agrees lib {} depth prog.code args [.number 5, .number 3] fn := by
  intro ast args
  refine ⟨by decide, ?_⟩
  have hcompile : ∃ kind, exprCompile ast {} =
      .ok ⟨[.loadVar "p_x" (some (.identifier "p_x")), .loadParam "x", .arith .sub, .ret], kind⟩ := ⟨_, rfl⟩
  obtain ⟨kind, hcompile⟩ := hcompile
  refine ⟨_, _, hcompile, .plain "" "f" rfl, fun lib depth h => ?_⟩
  have hparams : (argNames args).Nodup := h.distinct
  exact absurd hparams (by decide)

theorem difference_agrees :
    let ast : Ast Int := .binary .minus (.identifier "y") (.param "x")
    let args : List ProgramArg := [⟨.var, some "y", none, 0⟩, ⟨.param, some "x", none, 0⟩]
    ∃ prog fn, exprCompile ast {} = .ok prog ∧ Emits prog.code args fn ∧
      Agrees ⟨min, max, 0⟩ {} 0 prog.code args [.number 5, .number 3] fn := by
  intro ast args
  have hcompile : ∃ kind, exprCompile ast {} =
      .ok ⟨[.loadVar "y" (some (.identifier "y")), .loadParam "x", .arith .sub, .ret], kind⟩ := ⟨_, rfl⟩
  obtain ⟨kind, hcompile⟩ := hcompile
  have hemits : Emits ([.loadVar "y" (some (.identifier "y")), .loadParam "x", .arith .sub, .ret] : Program Int) args _ :=
    .plain "" "f" rfl
  refine ⟨_, _, hcompile, hemits, ?_⟩
  refine (backend_agrees printable_int hcompile (by decide) rfl hemits).1 ⟨⟨by decide, by decide, ?_⟩, ⟨by decide, ?_⟩⟩
  · intro d hd
    simp at hd
  · refine honestRun_of_noNative ?_ _ _
    intro instr hinstr
    simp only [List.mem_cons, List.not_mem_nil, or_false] at hinstr
    rcases hinstr with rfl | rfl | rfl | rfl <;> rfl

end Cxpr.Ir.Codegen
