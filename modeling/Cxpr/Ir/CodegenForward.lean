import Cxpr.Ir.CodegenAgree
import Cxpr.Ir.Forward

/-! The two ends of the expression backend: what the tree of an expression evaluates to on its arguments, and what the C
    function returns that is emitted for it. -/

namespace Cxpr.Ir.Codegen
open Eval
variable {D : Type} {args : List ProgramArg}

/-- A frame with numbers only. -/
structure NumbersOnly (f : Cxpr.Frame D) : Prop where
  scope : f.expressionScope = none
  vars : f.bools = ∅ ∧ f.int64s = ∅ ∧ f.strings = ∅ ∧ f.arrays = ∅ ∧ f.structs = ∅ ∧ f.cachedStructs = ∅
  params : f.boolParams = ∅ ∧ f.int64Params = ∅ ∧ f.stringParams = ∅ ∧ f.arrayParams = ∅

theorem NumbersOnly.bindArgument {f : Cxpr.Frame D} (h : NumbersOnly f) (arg : ProgramArg) (d : D) :
    NumbersOnly (bindArgument f arg (.number d)) := by
  obtain ⟨hscope, ⟨hbools, hint64s, hstrings, harrays, hstructs, hcached⟩, hparams⟩ := h
  unfold Codegen.bindArgument
  split
  · refine ⟨hscope, ?_, hparams⟩
    simp [Argument.value, Frame.setValue, Frame.set, hbools, hint64s, hstrings, harrays, hstructs, hcached, erase_empty]
  · refine ⟨hscope, ?_, ?_⟩
    · simp [Argument.value, Frame.setParamValue, Frame.setParam, hbools, hint64s, hstrings, harrays, hstructs, hcached,
        erase_empty]
    · simp [Argument.value, Frame.setParamValue, Frame.setParam, hparams, erase_empty]
  · exact ⟨hscope, ⟨hbools, hint64s, hstrings, harrays, hstructs, hcached⟩, hparams⟩

theorem argumentContext_numbers (args : List ProgramArg) (ds : List D) :
    ∃ f, argumentContext args (ds.map .number) = [f] ∧ NumbersOnly f := by
  refine ⟨_, rfl, List.foldlRecOn _ _ ⟨rfl, ⟨rfl, rfl, rfl, rfl, rfl, rfl⟩, rfl, rfl, rfl, rfl⟩ fun f hf p hp => ?_⟩
  obtain ⟨d, -, hd⟩ := List.mem_map.mp (List.of_mem_zip hp).2
  have hbound := hf.bindArgument p.1 d
  rwa [hd] at hbound

theorem allNumbers_argumentContext (args : List ProgramArg) (ds : List D) :
    AllNumbers (argumentContext args (ds.map .number)) := by
  obtain ⟨f, hf, hscope, ⟨hbools, hint64s, hstrings, harrays, hstructs, hcached⟩, hparams⟩ := argumentContext_numbers args ds
  rw [hf]
  refine ⟨fun name v hv => ?_, fun g hg => ?_, fun g hg => by cases hg⟩
  · have hvar : ∃ d, f.vars.lookup name = some d ∧ Value.number d = v := by
      simpa [Context.getTyped, Frame.getTyped, hscope, hbools, hint64s, hstrings, harrays, hstructs, hcached] using hv
    obtain ⟨d, -, rfl⟩ := hvar
    exact ⟨d, rfl⟩
  · obtain rfl := List.mem_singleton.mp hg
    exact ⟨hparams.1, hparams.2.1, hparams.2.2.1, hparams.2.2.2, hstructs⟩

theorem isDouble_of_isScalar [Double D] {v : Value D} (h : v.isScalar = true) : ∃ d, IsDouble v d := by
  cases v with
  | number d => exact ⟨d, .number d⟩
  | bool b => exact ⟨_, .bool b⟩
  | _ => cases h

variable [Double D] {reg : Registry D} {ast : Ast D} {prog : CompiledIr D} {fn : CFunction} {v : Value D} {ctx : Context D}
  {depth : Nat} {lib : CLib D}

omit [Double D] in
theorem nativeOf_eq_none {instr : Instr D} {var param : String → Prop} (h : Operator var param instr) :
    nativeOf instr = none := by
  cases instr <;> first
    | rfl
    | exact h.elim

/-- An expression of the operator fragment that the tree evaluator evaluates on numbers is emitted as a function that returns
    its value on them. -/
theorem emitted_returns_evalAst (hprintf : ∀ d : D, constantOf (Double.formatG 17 d) = some d ↔ Printable d)
    (hast : Scalar reg false ast) (hdepth : operandDepth ast ≤ stackCapacity) (hcompile : exprCompile ast reg = .ok prog)
    (hdistinct : (args.map ProgramArg.key).Nodup) (hemits : Emits prog.code args fn) (hrender : Renderable prog.code args fn)
    (hlibrary : ∀ name ∈ fn.libraryNames, name ∉ argNames args) {ds : List D} (hlength : ds.length = args.length)
    (heval : evalAst reg depth ast (argumentContext args (ds.map .number)) = .ok (v, ctx)) :
    ∃ d, IsDouble v d ∧ fn.Returns lib ds (fn.result d) := by
  have hctx := allNumbers_argumentContext args ds
  have hidle : Idle (argumentContext args (ds.map .number)) := by
    intro f hf
    obtain rfl : _ = f := Option.some.inj hf
    exact (foldl_scalars _ ⟨rfl, rfl, rfl, rfl, rfl, rfl⟩).memo
  have hden := (evalAst_eq_ok hast hidle heval).2.1
  have hhost := @contextHost_answers D _ reg _ depth hctx hidle
  obtain ⟨code, hcode, hrun⟩ := execTyped_spec hhost hast (mem_memos _)
  have hsame : prog.code = code := by
    obtain ⟨_, _, h⟩ := bind_eq_ok.mp hcompile
    obtain ⟨code', hcode', h⟩ := bind_eq_ok.mp h
    cases h
    exact Except.ok.inj (hcode'.symm.trans hcode)
  rw [compiledMeaning_of_denote (env_scalar hctx) hast hden] at hrun
  rcases hrun with ⟨-, hnone | hover⟩ | ⟨w, c, hw, -, hrun⟩
  · cases hnone
  · omega
  · cases hw
    obtain ⟨d, hd⟩ := isDouble_of_isScalar (denote_isScalar (env_scalar hctx) hast hden)
    have hcalls : Plays lib reg depth prog.code args (ds.map .number) fn := by
      refine ⟨hlibrary, honestRun_of_noNative (fun instr hinstr => ?_) _ _⟩
      exact nativeOf_eq_none (compile_operator hast (allNames_of_forall hast (fun _ => trivial) (fun _ => trivial))
        (hsame ▸ hcode) instr hinstr)
    have hreturns := hemits.emission.returns (exprCompile_jumps hcompile) hdistinct (by rw [List.length_map, hlength])
      hrender.distinct (fun d hd => (hprintf d).mpr (hrender.constants d hd)) hcalls (hsame ▸ hrun) hd
    rw [List.map_map] at hreturns
    exact ⟨d, hd, by simpa [Function.comp_def, Argument.double] using hreturns⟩

theorem difference_returns :
    let ast : Ast Int := .binary .minus (.identifier "y") (.identifier "x")
    let args : List ProgramArg := [⟨.var, some "y", none, 0⟩, ⟨.var, some "x", none, 0⟩]
    ∃ prog fn, exprCompile ast {} = .ok prog ∧ Emits prog.code args fn ∧
      ∃ d, IsDouble (.number (2 : Int)) d ∧ fn.Returns ⟨min, max, 0⟩ [5, 3] (fn.result d) := by
  intro ast args
  let code : Program Int :=
    [.loadVar "y" (some (.identifier "y")), .loadVar "x" (some (.identifier "x")), .arith .sub, .ret]
  have hcompile : ∃ kind, exprCompile ast {} = .ok ⟨code, kind⟩ := ⟨_, rfl⟩
  obtain ⟨kind, hcompile⟩ := hcompile
  have hemits : Emits code args _ := .plain "" "f" rfl
  have heval : ∃ ctx, evalAst ({} : Registry Int) 1 ast (argumentContext args ([5, 3].map .number)) = .ok (.number 2, ctx) :=
    ⟨_, rfl⟩
  obtain ⟨ctx, heval⟩ := heval
  refine ⟨_, _, hcompile, hemits, ?_⟩
  refine emitted_returns_evalAst printable_int (.binary .minus (.identifier "y") (.identifier "x")) (by decide) hcompile
    (by decide) hemits ⟨by decide, by decide, fun d hd => ?_⟩ (by decide) rfl heval
  simp [code] at hd

end Cxpr.Ir.Codegen
