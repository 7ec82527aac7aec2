import LeakTrace.Proofs.Extraction.Paths
import LeakTrace.Proofs.Log.Noise

namespace LeakTrace

private theorem Splicer.spliceAll_congr {boundaries boundaries' : List GraphId}
    (h : ∀ g, g ∈ boundaries ↔ g ∈ boundaries') (s : Splicer) (order : List GraphId) :
    s.spliceAll order boundaries = s.spliceAll order boundaries' := by
  have hcollect : collect boundaries = collect boundaries' := by
    funext state g
    simp only [collect, h]
  rw [spliceAll, spliceAll, hcollect]

namespace TaintLog

private theorem entries_closedGraphs (log : TaintLog) : log.closedGraphs.entries =
    log.graphs.ids.map fun g => (g, closeGraph log.cache (log.fragments g)) := by
  rw [closedGraphs, GraphSet.entries_close, GraphSet.entries_eq log.graphs, List.map_map]
  rfl

namespace Alike

variable {log log' : TaintLog}

private theorem closedGraphs_eq (h : Alike log log') : log.closedGraphs = log'.closedGraphs := by
  have hclosed : ∀ g,
      closeGraph log.cache (log.fragments g) = closeGraph log'.cache (log'.fragments g) := by
    intro g
    rw [← closeGraph_congr h.cached, closeGraph, closeGraph, h.closes]
  apply GraphSet.ext
  rw [entries_closedGraphs, entries_closedGraphs, h.ids]
  simp only [hclosed]

private theorem reconstruct_eq (h : Alike log log') :
    log.reconstruct.graphs = log'.reconstruct.graphs ∧
      log.reconstruct.splice = log'.reconstruct.splice := by
  rw [reconstruct, reconstruct, h.closedGraphs_eq, h.ids, Splicer.spliceAll_congr h.boundaries]
  exact ⟨rfl, rfl⟩

end Alike

end TaintLog

variable {bindings bindings' : Bindings}

private theorem FlowGraph.build_congr (h : bindings.Agree bindings') (config : Config)
    (lines : List Fragment) : build config bindings lines = build config bindings' lines := by
  have hnote : noteSource bindings = noteSource bindings' := by
    funext g n
    rw [noteSource, noteSource, h.isSource]
  have hadd : addDerivation bindings = addDerivation bindings' := by
    funext g derivation
    rw [addDerivation, addDerivation, hnote]
  rw [build, build, hadd]

/-- Paths depend on the graphs, and on what the bindings say about sinks and source times. -/
theorem Config.paths_congr {r r' : Reconstruction} (hgraphs : r.graphs = r'.graphs)
    (h : r.bindings.Agree r'.bindings) (config : Config) : config.paths r = config.paths r' := by
  have houtcome : config.graphOutcome r.bindings = config.graphOutcome r'.bindings := by
    funext graph lines
    rw [graphOutcome, graphOutcome, FlowGraph.build_congr h, h.sink?]
  have houtcomes : config.outcomes r = config.outcomes r' := by
    rw [outcomes, outcomes, hgraphs, houtcome]
    simp only [h.sink?]
  rw [paths, paths, candidates, candidates, houtcomes]

/-- A line that carries no record, wherever it stands, and a line that stands right behind itself
change neither the reconstructed graphs nor the counters of splicing, nor what is recorded of sinks,
sources, their descriptions and reflective targets, nor the reported paths. Every line is
counted. -/
theorem noise_absorbed (config : Config) (before after : List String) {line : String}
    (h : IsNoise line ∨ before.getLast? = some line) :
    let r := (TaintLog.ofLines (before ++ after)).reconstruct
    let r' := (TaintLog.ofLines (before ++ line :: after)).reconstruct
    r'.graphs = r.graphs ∧ r'.splice = r.splice ∧ r'.bindings.Agree r.bindings ∧
      config.paths r' = config.paths r ∧ r'.parse.lines = r.parse.lines + 1 := by
  intro r r'
  have halike := TaintLog.alike_ofLines_insert before after h
  obtain ⟨hgraphs, hsplice⟩ := halike.reconstruct_eq
  refine ⟨hgraphs, hsplice, halike.bindings, Config.paths_congr hgraphs halike.bindings config, ?_⟩
  have hlines : r.parse.lines = (before ++ after).length := TaintLog.lines_ofLines _
  have hlines' : r'.parse.lines = (before ++ line :: after).length := TaintLog.lines_ofLines _
  rw [hlines', hlines, List.length_append, List.length_append, List.length_cons, Nat.add_assoc]

def unrelatedLine : String := "I ActivityManager: Start proc"

/-- A line with a mark, behind which no graph id stands. -/
def brokenLine : String := "I System.out: DumpTaint-path-5: -> noise"

private theorem isNoise_unrelatedLine : IsNoise unrelatedLine := .inl (by decide +kernel)

private theorem isNoise_brokenLine : IsNoise brokenLine := .inr ⟨.dumpGraph, by decide +kernel⟩

/-- The path of `directLeak` is found with an unrelated line in front, with a broken line before the
dump line, and with the dump line written twice. -/
theorem noisyLeak_paths :
    Config.paths {} (TaintLog.ofLines (unrelatedLine :: directLeak)).reconstruct = [directPath] ∧
      Config.paths {} (TaintLog.ofLines
        (directLeak.take 2 ++ brokenLine :: directLeak.drop 2)).reconstruct = [directPath] ∧
      Config.paths {} (TaintLog.ofLines (directLeak ++ [directLeak[2]])).reconstruct =
        [directPath] := by
  have hunrelated := noise_absorbed {} [] directLeak (.inl isNoise_unrelatedLine)
  have hbroken := noise_absorbed {} (directLeak.take 2) (directLeak.drop 2)
    (.inl isNoise_brokenLine)
  have hlast : directLeak.getLast? = some directLeak[2] := rfl
  have htwice := noise_absorbed {} directLeak [] (.inr hlast)
  refine ⟨?_, ?_, ?_⟩
  · exact hunrelated.2.2.2.1.trans paths_directLeak
  · exact hbroken.2.2.2.1.trans paths_directLeak
  · exact htwice.2.2.2.1.trans paths_directLeak

end LeakTrace
