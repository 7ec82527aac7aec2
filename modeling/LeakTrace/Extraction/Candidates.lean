import LeakTrace.Extraction.Reconstruction
import LeakTrace.Graph.Flow
import LeakTrace.Path.Ranking
import LeakTrace.Path.Synthesis

namespace LeakTrace

/-- What one partition comes to. -/
structure PartitionOutcome where
  /-- The name and the text of the partition's drawing. -/
  drawing : String × String
  synthesis : Synthesis
deriving DecidableEq, Repr

/-- What one graph comes to. -/
structure GraphOutcome where
  partitions : List PartitionOutcome
  droppedEdges : Nat
deriving DecidableEq, Repr

namespace Synthesis

def path? : Synthesis → Option LeakPath
  | path p => some p
  | _ => none

def isUnreachable : Synthesis → Bool
  | unreachable => true
  | _ => false

def isCausalViolation : Synthesis → Bool
  | causalViolation _ => true
  | _ => false

end Synthesis

/-- The drawing of a partition of a graph. -/
def Subgraph.drawing (g : Subgraph) (graph : GraphId) : String × String :=
  let id := String.ofList (Text.ofUInt64 graph)
  (id ++ "_" ++ String.ofList (Text.ofInt64 g.source.time),
    g.toDot ("graph " ++ id ++ " from " ++ g.source.text))

/-- Picks a sink and goes for it. Where there is none to pick, none is reachable. -/
def Subgraph.outcome (g : Subgraph) (graph : GraphId) (recorded : Option Sink)
    (fallback : SinkSelection) : PartitionOutcome where
  drawing := g.drawing graph
  synthesis := match g.selectSink? recorded fallback with
    | some sink => g.synthesize graph sink
    | none => .unreachable

namespace Config

/-- The partitions of one graph, in the order of their sources, and what they come to. -/
def graphOutcome (config : Config) (bindings : Bindings) (graph : GraphId)
    (lines : List Fragment) : GraphOutcome :=
  let flow := FlowGraph.build config bindings lines
  ⟨(flow.sources.toList.filterMap flow.partition?).map fun g =>
      g.outcome graph (bindings.sink? graph) config.sinkSelection,
    flow.droppedEdges⟩

/-- The graphs of a reconstruction that have a sink, and what they come to. -/
def outcomes (config : Config) (r : Reconstruction) : List GraphOutcome :=
  (r.graphs.entries.filter fun p => (r.bindings.sink? p.1).isSome).map fun p =>
    config.graphOutcome r.bindings p.1 p.2

/-- All paths that were synthesized, in the order of graphs and sources. -/
def candidates (config : Config) (r : Reconstruction) : List LeakPath :=
  (config.outcomes r).flatMap fun o => o.partitions.filterMap fun p => p.synthesis.path?

/-- The paths that are reported. -/
def paths (config : Config) (r : Reconstruction) : List LeakPath :=
  Ranking.deduplicate config.onePathPerStart (config.candidates r)

/-- The drawings that are wanted. -/
def drawings (config : Config) (r : Reconstruction) : List (String × String) :=
  if config.dumpGraphs then (config.outcomes r).flatMap fun o => o.partitions.map (·.drawing)
  else []

end Config

end LeakTrace
