import LeakTrace.Proofs.Extraction.Paths
import LeakTrace.Proofs.Path.Starts
import LeakTrace.Proofs.Path.Timeline

namespace LeakTrace

open LeakPath

private theorem Subgraph.startsAtSource_of_synthesize {g : Subgraph} {graph : GraphId} {sink : Node}
    {p : LeakPath} (h : g.synthesize graph sink = .path p) : p.StartsAtSource := by
  obtain ⟨unseen, met, hvisits, hsink, rfl⟩ := visits_of_synthesize_path h
  have hstarts : (g.pathOf graph sink met).steps.head? = some g.source :=
    (leadsInOrder_pathOf hvisits hsink).starts
  rw [StartsAtSource, start?, statements, List.head?_map, hstarts]
  rfl

namespace Config

variable {config : Config} {r : Reconstruction} {p : LeakPath}

private theorem startsAtSource_of_mem_candidates (h : p ∈ config.candidates r) :
    p.StartsAtSource := by
  obtain ⟨graph, lines, -, -, outcome, houtcome, hp⟩ := exists_outcome_of_mem_candidates h
  obtain ⟨part, -, rfl⟩ := List.mem_map.mp houtcome
  obtain ⟨sink, -, hsynthesis⟩ := Subgraph.synthesize_of_outcome hp
  exact Subgraph.startsAtSource_of_synthesize hsynthesis

private theorem filter_candidates (config : Config) (r : Reconstruction) (start : String) :
    (config.candidates r).filter (startsWith start) =
      (config.candidates r).filter fun q => q.source.statement = start := by
  refine List.filter_congr fun q hq => ?_
  rw [Bool.eq_iff_iff, (startsAtSource_of_mem_candidates hq).startsWith_iff, decide_eq_true_iff]

private theorem derivations_onePathPerStart (config : Config) (onePerStart : Bool)
    (previousLeft : Option Node) (lines : List Fragment) :
    ({ config with onePathPerStart := onePerStart } : Config).derivations previousLeft lines =
      config.derivations previousLeft lines := by
  induction lines generalizing previousLeft with
  | nil => rfl
  | cons line lines ih =>
    rw [derivations, derivations, ih]
    rfl

/-- What is found does not depend on how many paths are wanted. -/
theorem candidates_onePathPerStart (config : Config) (r : Reconstruction) (onePerStart : Bool) :
    ({ config with onePathPerStart := onePerStart } : Config).candidates r = config.candidates r := by
  simp only [candidates, outcomes, graphOutcome, FlowGraph.build, derivations_onePathPerStart]

end Config

/-- With one path for each start, each source statement that some candidate has is the start of one
reported path, which is the earliest of the shortest candidates with that source statement. Every
reported path is a candidate that starts at its source statement, so there are no others. -/
theorem paths_best_of_each_start (config : Config) (r : Reconstruction)
    (h : config.onePathPerStart = true) :
    (∀ c ∈ config.candidates r, ∃ best,
      ((config.candidates r).filter fun q => q.source.statement = c.source.statement).argmin
        LeakPath.length = some best ∧
      (config.paths r).filter (fun q => q.start? = some c.source.statement) = [best]) ∧
    ∀ p ∈ config.paths r, p ∈ config.candidates r ∧ p.start? = some p.source.statement := by
  have hstarts : ∀ p ∈ config.candidates r, p.StartsAtSource :=
    fun p hp => Config.startsAtSource_of_mem_candidates hp
  constructor
  · intro c hc
    have hreported := Ranking.filter_deduplicate_true hstarts c.source.statement
    rw [config.filter_candidates r] at hreported
    cases hbest : ((config.candidates r).filter fun q =>
        q.source.statement = c.source.statement).argmin LeakPath.length with
    | none =>
      have hnil := List.filter_eq_nil_iff.mp (List.argmin_eq_none.mp hbest) c hc
      exact absurd (decide_eq_true rfl) hnil
    | some best =>
      refine ⟨best, rfl, ?_⟩
      rw [hbest] at hreported
      rw [Config.paths, h]
      exact hreported
  · intro p hp
    have hmem := Ranking.mem_of_mem_deduplicate hp
    exact ⟨hmem, hstarts p hmem⟩

/-- Three sources of one statement and a fourth of another, each with what was derived from it: two
nodes in the first flow and one in the others. -/
def rivalForks : List (Node × List Node) :=
  [(⟨3, "f"⟩, [⟨4, "a"⟩, ⟨5, "b"⟩]), (⟨13, "f"⟩, [⟨15, "b"⟩]), (⟨23, "f"⟩, [⟨25, "c"⟩]),
    (⟨33, "g"⟩, [⟨35, "b"⟩])]

def rivalLines : List Fragment :=
  rivalForks.flatMap fun (source, next) => next.map fun n => ⟨n, source, none⟩

def rivals : Reconstruction where
  graphs := ⟨[(1, rivalLines)], by simp⟩
  bindings :=
    (((rivalForks.map Prod.fst).foldl Bindings.noteOrigin .empty).noteSink ⟨"b", ""⟩).noteDump 1
  parse := ⟨0, 0, 0, 0⟩
  splice := ⟨0, 0, 0, 0⟩

def rivalPath (source sink : Node) (between : List Node) : LeakPath :=
  ⟨1, source, sink, source :: between ++ [sink], false⟩

private theorem candidates_rivals : Config.candidates { sinkSelection := .last } rivals =
    [rivalPath ⟨3, "f"⟩ ⟨5, "b"⟩ [⟨4, "a"⟩], rivalPath ⟨13, "f"⟩ ⟨15, "b"⟩ [],
      rivalPath ⟨23, "f"⟩ ⟨25, "c"⟩ [], rivalPath ⟨33, "g"⟩ ⟨35, "b"⟩ []] := by
  have hsink : rivals.bindings.sink? 1 = some ⟨"b", ""⟩ := by decide +kernel
  have hsources : (FlowGraph.build { sinkSelection := .last } rivals.bindings
      rivalLines).sources.toList = rivalForks.map Prod.fst := by decide +kernel
  have hforks : ∀ fork ∈ rivalForks,
      (FlowGraph.build { sinkSelection := .last } rivals.bindings
        rivalLines).successors[fork.1]?.map Std.TreeSet.toList = some fork.2 ∧
      ∀ n ∈ fork.2, ((FlowGraph.build { sinkSelection := .last } rivals.bindings
        rivalLines).successors.erase fork.1)[n]? = none := by decide +kernel
  have hparts := FlowGraph.filterMap_partition?_of_forks hforks
  rw [← hsources] at hparts
  rw [Config.candidates_of_partitions rfl rfl hsink hparts]
  decide +kernel

/-- The longer path from the first source gives way to that from the second, which is as short as the
third and stands before it. -/
theorem rivals_best_of_each_start :
    (Config.paths { sinkSelection := .last } rivals).filter (fun q => q.start? = some "f") =
        [rivalPath ⟨13, "f"⟩ ⟨15, "b"⟩ []] ∧
      (Config.paths { sinkSelection := .last } rivals).filter (fun q => q.start? = some "g") =
        [rivalPath ⟨33, "g"⟩ ⟨35, "b"⟩ []] := by
  obtain ⟨hbest, -⟩ := paths_best_of_each_start { sinkSelection := .last } rivals rfl
  rw [candidates_rivals] at hbest
  constructor
  · obtain ⟨best, hargmin, hreported⟩ :=
      hbest (rivalPath ⟨3, "f"⟩ ⟨5, "b"⟩ [⟨4, "a"⟩]) List.mem_cons_self
    have hshortest : best = rivalPath ⟨13, "f"⟩ ⟨15, "b"⟩ [] := by
      refine Option.some.inj (hargmin.symm.trans ?_)
      decide +kernel
    exact hshortest ▸ hreported
  · obtain ⟨best, hargmin, hreported⟩ :=
      hbest (rivalPath ⟨33, "g"⟩ ⟨35, "b"⟩ []) (by decide +kernel)
    have honly : best = rivalPath ⟨33, "g"⟩ ⟨35, "b"⟩ [] := by
      refine Option.some.inj (hargmin.symm.trans ?_)
      decide +kernel
    exact honly ▸ hreported

/-- The paths that are reported one for each start are a subsequence of those that are reported where
all are wanted. -/
theorem paths_onePathPerStart_sublist (config : Config) (r : Reconstruction) :
    (({ config with onePathPerStart := true } : Config).paths r).Sublist
      (({ config with onePathPerStart := false } : Config).paths r) := by
  simp only [Config.paths, Config.candidates_onePathPerStart]
  exact Ranking.deduplicate_true_sublist fun p hp => Config.startsAtSource_of_mem_candidates hp

end LeakTrace
