import LeakTrace.Main
import LeakTrace.Proofs.Graph.Closure
import LeakTrace.Proofs.Graph.Expansion
import LeakTrace.Proofs.Graph.NestedFlow
import LeakTrace.Proofs.Extraction.Paths
import LeakTrace.Proofs.Path.Timeline
import LeakTrace.Proofs.Path.SelectedSink
import LeakTrace.Proofs.Log.Dumps
import LeakTrace.Proofs.Graph.Provenance
import LeakTrace.Proofs.Extraction.Markers
import LeakTrace.Proofs.Graph.Counters
import LeakTrace.Proofs.Graph.TopLevel
import LeakTrace.Proofs.Graph.ClosureOrder
import LeakTrace.Proofs.Extraction.Starts
import LeakTrace.Proofs.Log.Noise
import LeakTrace.Proofs.Log.SinkBinding
import LeakTrace.Proofs.Extraction.Noise
import LeakTrace.Proofs.Text.Marks
import LeakTrace.Proofs.Node.Descriptor
import LeakTrace.Proofs.Log.DumpLine
import LeakTrace.Proofs.Bytecode.ResultCalls
import LeakTrace.Proofs.Output.Rows
import LeakTrace.Proofs.Graph.OwnLines
import LeakTrace.Proofs.Graph.UnknownReferences
import LeakTrace.Proofs.Actions
import LeakTrace.Proofs.Files.Routes
import LeakTrace.Proofs.Files.Effects
import LeakTrace.Proofs.Output.Emitter
import LeakTrace.Proofs.Path.Names
import LeakTrace.Proofs.Extraction.Run
import LeakTrace.Proofs.Extraction.Outputs
import LeakTrace.Proofs.Extraction.Accounts
import LeakTrace.Proofs.Graph.LatestKnowledge
import LeakTrace.Proofs.Graph.Reachable
import LeakTrace.Proofs.Graph.LineEdges
import LeakTrace.Proofs.Node.Order
import LeakTrace.Proofs.Graph.Reversal
import LeakTrace.Proofs.Path.SinkChoice
import LeakTrace.Proofs.Path.Span
import LeakTrace.Proofs.Path.Divergence
import LeakTrace.Proofs.Log.SourceDetails
import LeakTrace.Proofs.Path.RankingRules
import LeakTrace.Proofs.Log.OriginLine
import LeakTrace.Proofs.Log.Lines
import LeakTrace.Proofs.Bytecode.Splicing
import LeakTrace.Proofs.Output.ReflectiveHead
import LeakTrace.Proofs.Extraction.Drawings
import LeakTrace.Proofs.Bytecode.Descriptors
import LeakTrace.Proofs.Bytecode.ReferenceText
import LeakTrace.Proofs.Bytecode.Instructions
import LeakTrace.Proofs.Bytecode.RegisterLists
import LeakTrace.Proofs.Bytecode.Operands
import LeakTrace.Proofs.Graph.Dot
import LeakTrace.Proofs.Graph.Drawing
import LeakTrace.Proofs.Bytecode.TableCache
import LeakTrace.Proofs.Log.ClassNames
import LeakTrace.Proofs.Graph.Table
