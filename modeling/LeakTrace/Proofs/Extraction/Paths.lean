import LeakTrace.Extraction.Candidates
import LeakTrace.Proofs.Graph.Adjacency
import LeakTrace.Proofs.Graph.Provenance
import LeakTrace.Proofs.Log.Bindings
import LeakTrace.Proofs.Path.Ranking
import LeakTrace.Proofs.Path.Synthesis

namespace LeakTrace

open Relation

/-- The path leads from a node at which a flow can start, over nodes that are reachable from it, to
one that nothing was derived from. -/
structure LeakPath.BackedBy (p : LeakPath) (flow : FlowGraph) : Prop where
  source_not_root : p.source.isRoot = false
  source_not_boundary : p.source.isBoundary = false
  sink_reached : TransGen flow.Edge p.source p.sink
  sink_last : ∀ n, ¬flow.Edge p.sink n
  steps_reached : ∀ step ∈ p.steps, ReflTransGen flow.Edge p.source step

private theorem Synthesis.path?_eq_some_iff {s : Synthesis} {p : LeakPath} :
    s.path? = some p ↔ s = .path p := by
  cases s <;> simp [path?]

theorem Subgraph.synthesize_of_outcome {g : Subgraph} {graph : GraphId} {recorded : Option Sink}
    {fallback : SinkSelection} {p : LeakPath}
    (h : (g.outcome graph recorded fallback).synthesis.path? = some p) :
    ∃ sink, g.selectSink? recorded fallback = some sink ∧ g.synthesize graph sink = .path p := by
  rw [Synthesis.path?_eq_some_iff, outcome] at h
  cases hsink : g.selectSink? recorded fallback with
  | none =>
    rw [hsink] at h
    exact absurd h (by simp)
  | some sink =>
    rw [hsink] at h
    exact ⟨sink, rfl, h⟩

private theorem Subgraph.outcome_path {g : Subgraph} {graph : GraphId} {recorded : Option Sink}
    {fallback : SinkSelection} {p : LeakPath}
    (h : (g.outcome graph recorded fallback).synthesis.path? = some p) :
    p.graph = graph ∧ p.source = g.source ∧ p.sink ∈ g.terminals ∧
      ∀ n ∈ p.steps, ReflTransGen g.Edge g.source n := by
  obtain ⟨sink, hsink, hsynthesis⟩ := synthesize_of_outcome h
  obtain ⟨hgraph, hsource, rfl, hsteps⟩ := synthesize_path hsynthesis
  exact ⟨hgraph, hsource, mem_terminals_of_selectSink? hsink, hsteps⟩

namespace Config

variable {config : Config} {bindings : Bindings} {graph : GraphId} {lines : List Fragment}
  {p : LeakPath}

private theorem graphOutcome_path {outcome : PartitionOutcome}
    (h : outcome ∈ (config.graphOutcome bindings graph lines).partitions)
    (hp : outcome.synthesis.path? = some p) :
    p.graph = graph ∧ bindings.isSource p.source.time = true ∧
      p.BackedBy (FlowGraph.build config bindings lines) := by
  obtain ⟨part, hpart, rfl⟩ := List.mem_map.mp h
  obtain ⟨source, hsource, hpart⟩ := List.mem_filterMap.mp hpart
  obtain ⟨hgraph, hstart, hsink, hsteps⟩ := Subgraph.outcome_path hp
  have hpsource : p.source = source := hstart.trans (FlowGraph.source_partition? hpart)
  obtain ⟨-, hstarts⟩ := FlowGraph.mem_sources_build.mp (Std.TreeSet.mem_toList.mp hsource)
  obtain ⟨hreached, hlast⟩ := (FlowGraph.mem_terminals_partition? hpart).mp hsink
  rw [← hpsource] at hstarts hreached
  refine ⟨hgraph, hstarts.recorded, hstarts.not_root, hstarts.not_boundary, hreached, hlast, ?_⟩
  intro step hstep
  rw [hpsource]
  exact FlowGraph.reaches_of_partition? hpart (hsteps step hstep)

theorem exists_outcome_of_mem_candidates {r : Reconstruction} (h : p ∈ config.candidates r) :
    ∃ graph lines, r.graphs.get? graph = some lines ∧ (r.bindings.sink? graph).isSome = true ∧
      ∃ outcome ∈ (config.graphOutcome r.bindings graph lines).partitions,
        outcome.synthesis.path? = some p := by
  obtain ⟨found, hfound, hmem⟩ := List.mem_flatMap.mp h
  obtain ⟨outcome, houtcome, hp⟩ := List.mem_filterMap.mp hmem
  obtain ⟨⟨graph, lines⟩, hsearched, rfl⟩ := List.mem_map.mp hfound
  obtain ⟨hentry, hbound⟩ := List.mem_filter.mp hsearched
  exact ⟨graph, lines, GraphSet.get?_eq_some_iff.mpr hentry, hbound, outcome, houtcome, hp⟩

theorem mem_candidates {r : Reconstruction} (h : p ∈ config.candidates r) :
    ∃ lines, r.graphs.get? p.graph = some lines ∧ (r.bindings.sink? p.graph).isSome = true ∧
      r.bindings.isSource p.source.time = true ∧
      p.BackedBy (FlowGraph.build config r.bindings lines) := by
  obtain ⟨graph, lines, hget, hbound, outcome, houtcome, hp⟩ := exists_outcome_of_mem_candidates h
  obtain ⟨rfl, hsource, hbacked⟩ := graphOutcome_path houtcome hp
  exact ⟨lines, hget, hbound, hsource, hbacked⟩

theorem outcomes_singleton {r : Reconstruction} {sink : Sink}
    (hgraphs : r.graphs.entries = [(graph, lines)]) (hbindings : r.bindings = bindings)
    (hsink : bindings.sink? graph = some sink) :
    config.outcomes r = [config.graphOutcome bindings graph lines] := by
  rw [outcomes, hgraphs, hbindings, List.filter_cons_of_pos (by rw [hsink]; rfl), List.filter_nil,
    List.map_singleton]

theorem candidates_of_partitions {r : Reconstruction} {sink : Sink} {parts : List Subgraph}
    (hgraphs : r.graphs.entries = [(graph, lines)]) (hbindings : r.bindings = bindings)
    (hsink : bindings.sink? graph = some sink)
    (hparts : (FlowGraph.build config bindings lines).sources.toList.filterMap
      (FlowGraph.build config bindings lines).partition? = parts) :
    config.candidates r = parts.filterMap fun part =>
      (part.outcome graph (some sink) config.sinkSelection).synthesis.path? := by
  rw [candidates, outcomes_singleton hgraphs hbindings hsink, List.flatMap_singleton, graphOutcome, hparts, hsink, List.filterMap_map]
  rfl

theorem candidates_singleton {r : Reconstruction} {sink : Sink} {source : Node} {part : Subgraph}
    (hgraphs : r.graphs.entries = [(graph, lines)]) (hbindings : r.bindings = bindings)
    (hsink : bindings.sink? graph = some sink)
    (hsources : (FlowGraph.build config bindings lines).sources.toList = [source])
    (hpart : (FlowGraph.build config bindings lines).partition? source = some part) :
    config.candidates r =
      (part.outcome graph (some sink) config.sinkSelection).synthesis.path?.toList := by
  have hparts : [source].filterMap (FlowGraph.build config bindings lines).partition? = [part] :=
    List.filterMap_cons_some hpart
  rw [candidates_of_partitions hgraphs hbindings hsink ((congrArg _ hsources).trans hparts),
    List.filterMap_cons]
  cases (part.outcome graph (some sink) config.sinkSelection).synthesis.path? with
  | none => rfl
  | some p => rfl

end Config

/-- Every reported path lies in a dumped graph that does not stand beyond a boundary and has a sink,
starts at an announced time, and is backed by the flow graph of the graph's reconstructed lines. -/
theorem paths_backed (config : Config) (lines : List String) {p : LeakPath}
    (h : p ∈ config.paths (TaintLog.ofLines lines).reconstruct) :
    p.graph ∈ (TaintLog.ofLines lines).graphs.ids ∧
      p.graph ∉ (TaintLog.ofLines lines).boundaries ∧
      ((TaintLog.ofLines lines).bindings.sink? p.graph).isSome = true ∧
      Announced lines p.source.time ∧
      ∃ fragments, (TaintLog.ofLines lines).reconstruct.graphs.get? p.graph = some fragments ∧
        p.BackedBy (FlowGraph.build config (TaintLog.ofLines lines).bindings fragments) := by
  obtain ⟨fragments, hget, hbound, hsource, hbacked⟩ :=
    Config.mem_candidates (Ranking.mem_of_mem_deduplicate h)
  have hid : p.graph ∈ (TaintLog.ofLines lines).reconstruct.graphs.ids :=
    GraphSet.contains_iff_mem_ids.mp (by rw [GraphSet.contains, hget]; rfl)
  obtain ⟨hdumped, hout⟩ := TaintLog.mem_ids_reconstruct hid
  exact ⟨hdumped, hout, hbound, TaintLog.isSource_ofLines.mp hsource, fragments, hget, hbacked⟩

/-- One announced source, one sink, and one line that ties them. -/
def directLeak : List String :=
  ["SourceFound: f()id(3)", "SinkFound: g(), d", "DumpTaint-5: ->g()id(4)->left->f()id(3)"]

def directLine : Fragment := ⟨⟨4, "g()"⟩, ⟨3, "f()"⟩, none⟩

private theorem ofLines_directLeak : TaintLog.ofLines directLeak =
    [⟨.record (.origin ⟨3, "f()"⟩), ["f()"]⟩, ⟨.record (.sink ⟨"g()", "d"⟩), ["g()"]⟩,
      ⟨.record (.dump 5 directLine), ["g()", "f()"]⟩].foldl TaintLog.addReading .empty := by
  have hread : directLeak.map Reading.ofLine = [⟨.record (.origin ⟨3, "f()"⟩), ["f()"]⟩,
      ⟨.record (.sink ⟨"g()", "d"⟩), ["g()"]⟩,
      ⟨.record (.dump 5 directLine), ["g()", "f()"]⟩] := by decide +kernel
  rw [TaintLog.ofLines_eq_foldl, hread]

theorem TaintLog.closedGraphs_single {log : TaintLog} {graph : GraphId} {line : Fragment}
    (hgraphs : log.graphs.entries = [(graph, [line])])
    (hunknown : ∀ n ∈ line.predecessors, log.cache.get? n = none) :
    log.closedGraphs = ⟨[(graph, [line])], by simp⟩ := by
  apply GraphSet.ext
  rw [closedGraphs, GraphSet.entries_close, hgraphs, List.map_singleton, closeGraph_of_unknown hunknown]

private theorem graphs_directLeak :
    (TaintLog.ofLines directLeak).reconstruct.graphs.entries = [(5, [directLine])] := by
  have hgraphs : (TaintLog.ofLines directLeak).graphs.entries = [(5, [directLine])] := by
    rw [ofLines_directLeak]
    decide +kernel
  have hboundaries : (TaintLog.ofLines directLeak).boundaries = [] := by
    rw [ofLines_directLeak]
    decide +kernel
  have hunknown : ∀ n ∈ directLine.predecessors,
      (TaintLog.ofLines directLeak).cache.get? n = none := by
    rw [ofLines_directLeak]
    decide +kernel
  rw [TaintLog.graphs_reconstruct, TaintLog.closedGraphs_single hgraphs hunknown, hboundaries,
    GraphSet.ids, hgraphs]
  decide +kernel

private theorem partition_directLeak :
    (FlowGraph.build {} (TaintLog.ofLines directLeak).bindings [directLine]).partition? ⟨3, "f()"⟩ =
      some ⟨⟨3, "f()"⟩, FlowGraph.reverseEdges ∅ ⟨3, "f()"⟩ [⟨4, "g()"⟩]⟩ := by
  rw [ofLines_directLeak]
  exact FlowGraph.partition?_of_leaves (by decide +kernel) (by decide +kernel)

def directPath : LeakPath :=
  ⟨5, ⟨3, "f()"⟩, ⟨4, "g()"⟩, [⟨3, "f()"⟩, ⟨4, "g()"⟩], false⟩

theorem paths_directLeak :
    Config.paths {} (TaintLog.ofLines directLeak).reconstruct = [directPath] := by
  have hsink : (TaintLog.ofLines directLeak).bindings.sink? 5 = some ⟨"g()", "d"⟩ := by
    rw [ofLines_directLeak]
    decide +kernel
  have hsources : (FlowGraph.build {} (TaintLog.ofLines directLeak).bindings
      [directLine]).sources.toList = [⟨3, "f()"⟩] := by
    rw [ofLines_directLeak]
    decide +kernel
  have hcandidates : Config.candidates {} (TaintLog.ofLines directLeak).reconstruct =
      [directPath] := by
    rw [Config.candidates_singleton graphs_directLeak (TaintLog.bindings_reconstruct _) hsink
      hsources partition_directLeak]
    decide +kernel
  rw [Config.paths, hcandidates]
  decide +kernel

/-- The path of `directLeak` and what backs it. -/
theorem directPath_backed :
    directPath ∈ Config.paths {} (TaintLog.ofLines directLeak).reconstruct ∧
      Announced directLeak directPath.source.time ∧
      ∃ fragments, (TaintLog.ofLines directLeak).reconstruct.graphs.get? 5 = some fragments ∧
        directPath.BackedBy
          (FlowGraph.build {} (TaintLog.ofLines directLeak).bindings fragments) := by
  have hmem : directPath ∈ Config.paths {} (TaintLog.ofLines directLeak).reconstruct := by
    rw [paths_directLeak]
    exact List.mem_singleton_self directPath
  obtain ⟨-, -, -, hannounced, hbacked⟩ := paths_backed {} directLeak hmem
  exact ⟨hmem, hannounced, hbacked⟩

end LeakTrace
