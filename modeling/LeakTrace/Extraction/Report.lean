import LeakTrace.Extraction.Candidates

namespace LeakTrace

/-- The counters of one extraction. -/
structure Report where
  lines : Nat
  malformedLines : Nat
  graphs : Nat
  boundGraphs : Nat
  parcelsInlined : Nat
  parcelsUnresolved : Nat
  droppedEdges : Nat
  partitions : Nat
  candidatePaths : Nat
  causalViolations : Nat
  unreachable : Nat
  paths : Nat
  divergentPaths : Nat
  /-- Steps without an instruction. -/
  droppedStatements : Nat
  unsupportedInstructions : Nat
deriving DecidableEq, Repr

namespace Report

/-- The counters up to the ranking; the rest counts what is written. -/
def ofReconstruction (config : Config) (r : Reconstruction) : Report :=
  let outcomes := config.outcomes r
  let partitions := outcomes.flatMap fun o => o.partitions
  let candidates := partitions.filterMap fun p => p.synthesis.path?
  let paths := Ranking.deduplicate config.onePathPerStart candidates
  { lines := r.parse.lines
    malformedLines := r.parse.malformed
    graphs := r.graphs.size
    boundGraphs := outcomes.length
    parcelsInlined := r.splice.inlined
    parcelsUnresolved := r.splice.unknown + r.splice.cyclic
    droppedEdges := outcomes.foldl (fun n o => n + o.droppedEdges) 0
    partitions := partitions.length
    candidatePaths := candidates.length
    causalViolations := partitions.countP fun p => p.synthesis.isCausalViolation
    unreachable := partitions.countP fun p => p.synthesis.isUnreachable
    paths := paths.length
    divergentPaths := paths.countP fun p => p.divergent
    droppedStatements := 0
    unsupportedInstructions := 0 }

/-- Every counter by its name, in the order in which they are printed. -/
def fields (r : Report) : List (String × Nat) :=
  [("lines", r.lines), ("malformed_lines", r.malformedLines), ("graphs", r.graphs),
    ("bound_graphs", r.boundGraphs), ("parcels_inlined", r.parcelsInlined),
    ("parcels_unresolved", r.parcelsUnresolved), ("dropped_edges", r.droppedEdges),
    ("partitions", r.partitions), ("candidate_paths", r.candidatePaths),
    ("causal_violations", r.causalViolations), ("unreachable", r.unreachable),
    ("paths", r.paths), ("divergent_paths", r.divergentPaths),
    ("dropped_statements", r.droppedStatements),
    ("unsupported_instructions", r.unsupportedInstructions)]

end Report

end LeakTrace
