import Cxpr.ContextWrites
import Cxpr.Ir.Constant
import Cxpr.Ir.Compile
import Cxpr.Lib.StackCode
import Cxpr.Lib.Worklist
import Cxpr.Lib.Upsert
import Cxpr.Ir.Validate
import Cxpr.Ir.Fast
import Cxpr.ValueOps
import Cxpr.Ir.Typed
import Cxpr.Ir.WellFormed
import Cxpr.Ir.StackSafety
import Cxpr.Printer
import Cxpr.Typecheck
import Cxpr.Eval.Memo
import Cxpr.Eval.Defined
import Cxpr.Eval.Tree
import Cxpr.Eval.Alike
import Cxpr.Lib.Paired
import Cxpr.Eval.Agree
import Cxpr.History
import Cxpr.Registrations
import Cxpr.Redefinition
import Cxpr.Ir.Api
import Cxpr.Lib.Computes
import Cxpr.Eval.Scalar
import Cxpr.Ir.Meaning
import Cxpr.Ir.Simulation
import Cxpr.Ir.FastSimulation
import Cxpr.Ir.Forward
import Cxpr.Lib.ProbeTable
import Cxpr.Memory
import Cxpr.Ir.LookupCache
import Cxpr.Ir.Coherence
import Cxpr.Parser.Parse
import Cxpr.Parser.Grammar
import Cxpr.Parser.Sound
import Cxpr.Parser.Complete
import Cxpr.Namespaces
import Cxpr.Lib.ProbeInvariant
import Cxpr.Hashmap
import Cxpr.Engine.Resolver
import Cxpr.Lib.Yields
import Cxpr.Typing.Certain
import Cxpr.Typing.Congruence
import Cxpr.Typing.Memo
import Cxpr.Typing.Calls
import Cxpr.Typing.Operators
import Cxpr.Typing.Sound
import Cxpr.Expression.Evaluator
import Cxpr.Lib.RingBuffer
import Cxpr.Engine.Session
import Cxpr.Engine.Edges
import Cxpr.Engine.Failure
import Cxpr.Engine.Calls
import Cxpr.Engine.Reset
import Cxpr.Engine.Samples
import Cxpr.Lib.Reorder
import Cxpr.Lib.SampleRing
import Cxpr.Model.Cells
import Cxpr.Model.Session
import Cxpr.Model.Tick
import Cxpr.Model.Staged
import Cxpr.Model.Order
import Cxpr.Model.Expressions
import Cxpr.Model.Atomic
import Cxpr.Model.Retry
import Cxpr.Model.Fused
import Cxpr.Model.FusedRetry
import Cxpr.Model.Failure
import Cxpr.Model.Limits
import Cxpr.Model.FastTick
import Cxpr.Model.Children
import Cxpr.Model.Imports
import Cxpr.Lib.Block
import Cxpr.Lib.Bytes
import Cxpr.Lib.Json
import Cxpr.Lib.LowerBound
import Cxpr.Bulk.StateStore
import Cxpr.Bulk.Snapshot
import Cxpr.Bulk.Corruption
import Cxpr.Bulk.Run
import Cxpr.Lib.DepthFirst
import Cxpr.Codegen.ExprSet
import Cxpr.Codegen.History
import Cxpr.Lib.Rolling
import Cxpr.Codegen.WindowPlan
import Cxpr.Codegen.Window
import Cxpr.Codegen.WindowAgree
import Cxpr.Lib.LittleEndian
import Cxpr.Ir.Codegen
import Cxpr.Ir.EmittedC
import Cxpr.Ir.CodegenScalar
import Cxpr.Ir.CodegenArray
import Cxpr.Ir.CodegenAgree
import Cxpr.Document.Text
import Cxpr.Lib.Scan
import Cxpr.Document.Parser
import Cxpr.Document.Lower
import Cxpr.Document.Layout
import Cxpr.Document.Declarations
import Cxpr.Document.Blocks
import Cxpr.Document.Agreement
import Cxpr.Document.DeclTypes
import Cxpr.Document.DeclaredTypes
import Cxpr.Document.TrimInPlace
import Cxpr.Lib.Parallel
import Cxpr.Eval.Renaming
import Cxpr.Eval.Renamed
import Cxpr.Eval.RenamedCalls
import Cxpr.Eval.RenamedNodes
import Cxpr.Model.ImportedFunctions
import Cxpr.Model.ImportMeaning
import Cxpr.Source.Canonical
import Cxpr.CallArgs
import Cxpr.Model.Outputs
import Cxpr.Basket
import Cxpr.ParamFields
import Cxpr.OrderedDouble
import Cxpr.Model.LookbackBound
import Cxpr.Lib.Representatives
import Cxpr.Source.Plan
import Cxpr.Source.Binding
import Cxpr.Source.CallOrder
import Cxpr.Metadata.Scan
import Cxpr.Metadata.Fields
import Cxpr.Metadata.Lookup
import Cxpr.Metadata.Exact
import Cxpr.Typing.InferredKind
import Cxpr.Model.ResultKinds
import Cxpr.Lib.Marking
import Cxpr.Model.Dependencies
import Cxpr.Model.Slice
import Cxpr.Lexer.Partition
import Cxpr.Lexer.Literal
import Cxpr.ExactArithmetic
import Cxpr.ContextCache
import Cxpr.ContextSlot
import Cxpr.Parser.Pipeline
import Cxpr.Ir.Square
import Cxpr.Ir.FastSafety
import Cxpr.Model.Buffers
import Cxpr.Model.Inline
import Cxpr.Alias.Exact
import Cxpr.Resample
import Cxpr.ValueMap
import Cxpr.StructArithmetic
import Cxpr.IndexGuards
import Cxpr.Analysis.Sound
import Cxpr.NamedCalls
import Cxpr.EvalSnapshot.Evaluator
import Cxpr.Completeness
import Cxpr.Model.AstEqual
import Cxpr.EvalSnapshot.ValueJson
import Cxpr.Lib.TopoSort
import Cxpr.Expression.Order
import Cxpr.Ir.CodegenForward
