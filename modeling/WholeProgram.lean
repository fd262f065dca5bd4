import WholeProgram.Data.Ordered
import WholeProgram.Data.Queue
import WholeProgram.Graph.Cycles
import WholeProgram.Text.Quoted
import WholeProgram.Text.Colour
import WholeProgram.Text.Operand
import WholeProgram.Log
import WholeProgram.Program.Render
import WholeProgram.Program.Document
import WholeProgram.Program.Statistics
import WholeProgram.DeadCode
import WholeProgram.CallGraph.ClassHierarchyAnalysis
import WholeProgram.ControlFlow.Supergraph
import WholeProgram.PointsTo.Analysis
import WholeProgram.PointsTo.ContextTree
import WholeProgram.Dataflow.Aliases
import WholeProgram.Text.Regex.Match
import WholeProgram.Lowering.Basic
import WholeProgram.Ssa.Document
import WholeProgram.Text.Json.Reader
import WholeProgram.Text.Yaml.Element
import WholeProgram.Config.Document
import WholeProgram.Config.Loader
import WholeProgram.Taint.Analysis
import WholeProgram.Dump.ClassFile
import WholeProgram.Dump.Dot
import WholeProgram.Sources.Annotation
import WholeProgram.Sources.Document
import WholeProgram.Command.Fixture
import WholeProgram.Command.Line
import WholeProgram.Main
import WholeProgram.Proofs.PointsTo.Rules
import WholeProgram.Proofs.PointsTo.Facts
import WholeProgram.Proofs.CallGraph.Views
import WholeProgram.Proofs.PointsTo.Agenda
import WholeProgram.Proofs.PointsTo.Run
import WholeProgram.Proofs.PointsTo.FactSpace
import WholeProgram.Proofs.Taint.Plugin
import WholeProgram.Proofs.PointsTo.Termination
import WholeProgram.Proofs.PointsTo.Outcome
import WholeProgram.Proofs.PointsTo.Exact
import WholeProgram.Proofs.PointsTo.Precision
import WholeProgram.Proofs.PointsTo.Soundness
import WholeProgram.Proofs.Dataflow.Lattice
import WholeProgram.Proofs.Dataflow.Worklist
import WholeProgram.Proofs.Dataflow.Liveness
import WholeProgram.Proofs.Dataflow.AliasSoundness
import WholeProgram.Proofs.DeadCode.Removal
import WholeProgram.Proofs.Dataflow.Limit
import WholeProgram.Proofs.PointsTo.Limit
import WholeProgram.Proofs.PointsTo.Effects
import WholeProgram.Proofs.Taint.Flows
import WholeProgram.Proofs.Taint.Monotone
import WholeProgram.Proofs.CallGraph.ClassHierarchy
import WholeProgram.Proofs.PointsTo.ClassHierarchy
import WholeProgram.Proofs.PointsTo.SpecialCalls
import WholeProgram.Proofs.Builder.Represents
import WholeProgram.Proofs.Lowering.Accepted
import WholeProgram.Proofs.Lowering.Integers
import WholeProgram.Proofs.Lowering.Phis
import WholeProgram.Proofs.Graph.Cycles
import WholeProgram.Proofs.CallGraph.Recursion
import WholeProgram.Proofs.CallGraph.Hierarchy
import WholeProgram.Proofs.CallGraph.Closure
import WholeProgram.Proofs.CallGraph.DeclarationOrder
import WholeProgram.Proofs.Dataflow.LivePaths
import WholeProgram.Proofs.ControlFlow.Faithful
import WholeProgram.Proofs.PointsTo.Notifications
import WholeProgram.Proofs.Dataflow.Visits
import WholeProgram.Proofs.CallGraph.Histories
import WholeProgram.Proofs.Config.Validation
import WholeProgram.Proofs.Graph.Subgraphs
import WholeProgram.Proofs.Dump.ClassFiles
import WholeProgram.Proofs.PointsTo.Lossless
import WholeProgram.Proofs.Data.Queue
import WholeProgram.Proofs.DeadCode.FeasiblePaths
import WholeProgram.Proofs.PointsTo.ContextTree
import WholeProgram.Proofs.Dataflow.Monotone
