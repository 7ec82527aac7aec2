import LeakTrace.Proofs.Extraction.Outputs
import LeakTrace.Proofs.Graph.Provenance
import LeakTrace.Proofs.Output.Collapse
import Mathlib.Algebra.BigOperators.Group.List.Basic

namespace LeakTrace

open FileTree Emitter

private theorem length_eq_of_partitions (partitions : List PartitionOutcome) :
    partitions.length = (partitions.filterMap fun p => p.synthesis.path?).length +
      partitions.countP (fun p => p.synthesis.isCausalViolation) +
      partitions.countP (fun p => p.synthesis.isUnreachable) := by
  induction partitions with
  | nil => rfl
  | cons p partitions ih =>
    rw [List.length_cons, List.filterMap_cons, List.countP_cons, List.countP_cons, ih]
    cases p.synthesis with
    | path path =>
      simp [Synthesis.path?, Synthesis.isCausalViolation, Synthesis.isUnreachable]
      omega
    | unreachable =>
      simp [Synthesis.path?, Synthesis.isCausalViolation, Synthesis.isUnreachable]
      omega
    | causalViolation node =>
      simp [Synthesis.path?, Synthesis.isCausalViolation, Synthesis.isUnreachable]
      omega

private theorem Splicer.references_collect (boundaries : List GraphId) (state : Splicer × GraphSet)
    (g : GraphId) :
    (collect boundaries state g).1.counts.references = state.1.counts.references := by
  obtain ⟨s, graphs⟩ := state
  cases hdone : s.result? g with
  | none => rw [collect_of_none hdone]
  | some lines =>
    by_cases hg : g ∈ boundaries
    · rw [collect_of_boundary hdone hg]
      rfl
    · rw [collect_of_topLevel hdone hg]
      rfl

private theorem Splicer.references_foldl_collect (boundaries order : List GraphId)
    (state : Splicer × GraphSet) :
    (order.foldl (collect boundaries) state).1.counts.references = state.1.counts.references := by
  induction order generalizing state with
  | nil => rfl
  | cons g order ih => rw [List.foldl_cons, ih, references_collect]

/-- All graphs of a log are built, each once, so all references in their closed lists are counted. -/
theorem TaintLog.references_reconstruct (log : TaintLog) :
    log.reconstruct.splice.references =
      (log.closedGraphs.entries.map fun p => (boundaryReferences p.2).length).sum := by
  obtain ⟨built, hvisits⟩ := log.visits_splicer
  have hbuilds := hvisits.builds_called (Splicer.divided_ofGraphs log.closedGraphs)
  have hids : log.closedGraphs.ids = log.graphs.ids := by
    rw [closedGraphs, GraphSet.close, GraphSet.ids_map]
  have hperm : built.Perm log.closedGraphs.ids := by
    refine (List.perm_ext_iff_of_nodup hbuilds.nodup log.closedGraphs.nodup).mpr fun g => ?_
    rw [hvisits.mem_built_iff, GraphSet.contains_iff_mem_ids]
    exact ⟨And.left, fun hg => ⟨hg, g, hids ▸ hg, .refl⟩⟩
  have hcounts : log.reconstruct.splice.references = log.splicer.counts.references :=
    Splicer.references_foldl_collect log.boundaries log.graphs.ids (log.splicer, .empty)
  have htotal := hbuilds.references
  rw [show (Splicer.ofGraphs log.closedGraphs).counts.references = 0 from rfl, Nat.zero_add] at htotal
  rw [hcounts, htotal, (hperm.map _).sum_eq, log.closedGraphs.entries_eq, List.map_map]
  rfl

private theorem LoweredPath.length_bytecode_ofInstructions (bindings : Bindings) (skip : Bool)
    (instructions : List Instruction) :
    (ofInstructions bindings skip instructions).bytecode.length = instructions.length := by
  rw [(shows_ofInstructions bindings skip instructions).bytecode, List.length_mapIdx,
    Lowering.map_instruction_ofInstructions]

private theorem countP_isNone_add_length_filterMap {α : Type} (l : List (Option α)) :
    l.countP Option.isNone + (l.filterMap id).length = l.length := by
  induction l with
  | nil => rfl
  | cons x l ih =>
    cases x with
    | none =>
      rw [List.countP_cons_of_pos rfl, List.filterMap_cons_none rfl, List.length_cons]
      omega
    | some a =>
      have hkept : (some a :: l).filterMap id = a :: l.filterMap id := rfl
      rw [List.countP_cons_of_neg (by simp), hkept, List.length_cons, List.length_cons]
      omega

/-- A step has an instruction or is counted as dropped. -/
theorem Job.dropped_add_bytecode (config : Config) (bindings : Bindings) (rank : Nat)
    (ps : List (LeakPath × List (Option Instruction))) :
    (ps.map fun x => x.2.countP Option.isNone).sum +
      ((written config bindings rank ps).map fun f => f.2.bytecode.length).sum =
      (ps.map fun x => x.2.length).sum := by
  induction ps generalizing rank with
  | nil => rfl
  | cons x ps ih =>
    have hfirst := countP_isNone_add_length_filterMap x.2
    have hrest := ih (rank + 1)
    simp only [written, List.zipIdx_cons, List.map_cons, List.sum_cons,
      LoweredPath.length_bytecode_ofInstructions] at hrest ⊢
    omega

/-- The report accounts for everything. A partition is a candidate path, a causal violation or
unreachable; a reference in the closed graphs was inlined or is unresolved; no more paths are reported
than there are candidates; and each step of a reported path has a row of bytecode in the file of the
path or is counted as dropped. -/
theorem report_accounts (config : Config) (log : TaintLog) (out : Route) {w after : Workspace}
    {report : Report} (h : Succeeds (Job.extract config log out) w report after) :
    report.partitions = report.candidatePaths + report.causalViolations + report.unreachable ∧
      report.parcelsInlined + report.parcelsUnresolved =
        (log.closedGraphs.entries.map fun p => (boundaryReferences p.2).length).sum ∧
      report.divergentPaths ≤ report.paths ∧ report.paths ≤ report.candidatePaths ∧
      report.boundGraphs ≤ report.graphs ∧
      ∃ emitted : List (String × List BytecodeRow),
        emitted.map Prod.fst = Ranking.names 1 (config.paths log.reconstruct) ∧
        (∀ f ∈ emitted, after.files.content? (pathFile out bytecodeDir f.1) =
          some (Text.Utf8.encode
            (Csv.render (BytecodeRow.header :: f.2.map BytecodeRow.fields)))) ∧
        report.droppedStatements + (emitted.map fun f => f.2.length).sum =
          ((config.paths log.reconstruct).map LeakPath.length).sum := by
  obtain ⟨created, steps, drawn, pathsWritten, hstages⟩ := Job.succeeds_extract h
  obtain ⟨rfl, -, hshown⟩ := Job.succeeds_writePaths hstages.write
  obtain ⟨hlast, -⟩ := changesOnly_writeSummary hstages.summarize
  refine ⟨length_eq_of_partitions _, ?_, List.countP_le_length, Ranking.length_deduplicate_le _ _,
    ?_, ?_⟩
  · have htotal := log.references_reconstruct
    rw [SpliceCounts.references, Nat.add_assoc] at htotal
    exact htotal
  · exact Nat.le_trans (Nat.le_of_eq (List.length_map _)) (List.length_filter_le _ _)
  · refine ⟨(Job.written config log.bindings 1 steps).map fun f => (f.1, f.2.bytecode), ?_, ?_, ?_⟩
    · rw [List.map_map, ← hstages.ranked, ← Job.map_fst_written]
      rfl
    · intro f hf
      obtain ⟨shown, hmem, rfl⟩ := List.mem_map.mp hf
      refine hlast.content? ?_ (hshown shown hmem).bytecode
      rw [destination_pathFile bytecodeDir_mem (Job.slash_not_mem_written hmem)]
      simp
    · have haccounted := Job.dropped_add_bytecode config log.bindings 1 steps
      rw [List.map_congr_left hstages.lookedUp] at haccounted
      have hnone : (Report.ofReconstruction config log.reconstruct).droppedStatements = 0 := rfl
      rw [List.map_map, ← hstages.ranked, List.map_map]
      simp only [hnone, Nat.zero_add]
      exact haccounted

/-- Neither step of the path of `directLeak` has an instruction where there are no tables. -/
theorem directLeak_accounts :
    ∃ (report : Report) (after : Workspace) (emitted : List (String × List BytecodeRow)),
      Succeeds (Job.extract {} (TaintLog.ofLines directLeak) (routeFromW "out"))
        staleWorkspace report after ∧
      report.partitions = report.candidatePaths + report.causalViolations + report.unreachable ∧
      emitted.map Prod.fst = ["path_1_5_3_4"] ∧
      report.droppedStatements + (emitted.map fun f => f.2.length).sum = 2 := by
  obtain ⟨report, after, hrun⟩ := directLeak_succeeds
  obtain ⟨hpartitions, -, -, -, -, emitted, hnames, -, hsteps⟩ :=
    report_accounts {} (TaintLog.ofLines directLeak) (routeFromW "out") hrun
  have hname : Ranking.names 1 [directPath] = ["path_1_5_3_4"] := by decide +kernel
  rw [paths_directLeak] at hnames hsteps
  exact ⟨report, after, emitted, hrun, hpartitions, hnames.trans hname, hsteps⟩

/-- The instructions of ranked paths under the names of the paths, from the given rank on. -/
def Job.instructions (rank : Nat) (ps : List (LeakPath × List (Option Instruction))) :
    List (String × List Instruction) :=
  (ps.zipIdx rank).map fun ((p, instructions), n) => (p.name n, instructions.filterMap id)

private theorem Job.written_eq (config : Config) (bindings : Bindings) (rank : Nat)
    (ps : List (LeakPath × List (Option Instruction))) :
    written config bindings rank ps = (instructions rank ps).map fun f =>
      (f.1, LoweredPath.ofInstructions bindings config.skipVoidReturns f.2) := by
  rw [instructions, List.map_map]
  rfl

private theorem FileTree.ShowsPath.summarized {t t' : FileTree} {out : Route} {name : String}
    {l : LoweredPath}
    (h : t.ShowsPath out name l) (hchanges : ChangesOnly (· = out.destination ++ [summaryFile]) t t')
    (hslash : '/' ∉ name.toList) : t'.ShowsPath out name l := by
  have hother : ∀ dir ∈ renewedDirs,
      (pathFile out dir name).destination ≠ out.destination ++ [summaryFile] := by
    intro dir hdir
    rw [destination_pathFile hdir hslash]
    simp
  exact ⟨hchanges.content? (hother pathsDir pathsDir_mem) h.rows,
    hchanges.content? (hother bytecodeDir bytecodeDir_mem) h.bytecode⟩

/-- An unsupported instruction is counted whether its row is emitted or repeats the row before. So the
counter of a path is the number of its emitted rows without a three-address form only if no instruction
of that kind is repeated; and the report adds up the counters of all written paths. -/
theorem unsupported_counted (config : Config) (log : TaintLog) (out : Route) {w after : Workspace}
    {report : Report} :
    (∀ (bindings : Bindings) (skip : Bool) (instructions : List Instruction),
      let p := LoweredPath.ofInstructions bindings skip instructions
      let ls := Lowering.kept skip (Lowering.ofInstructions bindings instructions)
      p.rows = (Lowering.emitted ls).mapIdx (fun n l => l.row n) ∧
        p.unsupported = (Lowering.emitted ls).countP Lowering.isUnsupported +
          (Lowering.repeated ls).countP Lowering.isUnsupported ∧
        (p.unsupported = (Lowering.emitted ls).countP Lowering.isUnsupported ↔
          ∀ l ∈ Lowering.repeated ls, l.isUnsupported = false)) ∧
      (Succeeds (Job.extract config log out) w report after →
        ∃ written : List (String × List Instruction),
          written.map Prod.fst = Ranking.names 1 (config.paths log.reconstruct) ∧
          (∀ f ∈ written, after.files.ShowsPath out f.1
            (LoweredPath.ofInstructions log.bindings config.skipVoidReturns f.2)) ∧
          report.unsupportedInstructions = (written.map fun f =>
            (LoweredPath.ofInstructions log.bindings config.skipVoidReturns f.2).unsupported).sum) := by
  refine ⟨fun bindings skip instructions => ?_, fun h => ?_⟩
  · have hcount := LoweredPath.unsupported_ofInstructions bindings skip instructions
    refine ⟨(LoweredPath.shows_ofInstructions bindings skip instructions).rows, hcount, ?_⟩
    rw [hcount, Nat.add_eq_left, List.countP_eq_zero]
    simp only [Bool.not_eq_true]
  · obtain ⟨created, steps, drawn, pathsWritten, hstages⟩ := Job.succeeds_extract h
    obtain ⟨rfl, -, hshown⟩ := Job.succeeds_writePaths hstages.write
    obtain ⟨hlast, -⟩ := changesOnly_writeSummary hstages.summarize
    have hwritten := Job.written_eq config log.bindings 1 steps
    refine ⟨Job.instructions 1 steps, ?_, fun f hf => ?_, ?_⟩
    · rw [← hstages.ranked, ← Job.map_fst_written, hwritten, List.map_map]
      rfl
    · have hmem : (f.1, LoweredPath.ofInstructions log.bindings config.skipVoidReturns f.2) ∈
          Job.written config log.bindings 1 steps := hwritten ▸ List.mem_map_of_mem hf
      exact (hshown _ hmem).summarized hlast (Job.slash_not_mem_written hmem)
    · have hnone : (Report.ofReconstruction config log.reconstruct).unsupportedInstructions = 0 := rfl
      rw [hwritten, List.map_map]
      exact (congrArg (· + _) hnone).trans (Nat.zero_add _)

def lock : Instruction := ⟨"La;", "f()V", 0, "monitor-enter v0"⟩

/-- Two instructions, one row, and a count of one for the row and one for its repetition. -/
theorem lock_repeated_counted :
    ∃ (report : Report) (after : Workspace) (written : List (String × List Instruction)),
      Succeeds (Job.extract {} (TaintLog.ofLines directLeak) (routeFromW "out"))
        staleWorkspace report after ∧
      (LoweredPath.ofInstructions .empty true [lock, lock]).rows =
        [⟨0, "<a: void f()>", 0, "unsupported monitor-enter"⟩] ∧
      (LoweredPath.ofInstructions .empty true [lock, lock]).unsupported = 1 + 1 ∧
      written.map Prod.fst = ["path_1_5_3_4"] ∧
      report.unsupportedInstructions = (written.map fun f =>
        (LoweredPath.ofInstructions (TaintLog.ofLines directLeak).bindings true f.2).unsupported).sum := by
  obtain ⟨report, after, hrun⟩ := directLeak_succeeds
  obtain ⟨hcounted, hsummed⟩ :=
    unsupported_counted {} (TaintLog.ofLines directLeak) (routeFromW "out")
  obtain ⟨written, hnames, -, hreport⟩ := hsummed hrun
  obtain ⟨hrows, hcount, -⟩ := hcounted .empty true [lock, lock]
  have hname : Ranking.names 1 [directPath] = ["path_1_5_3_4"] := by decide +kernel
  rw [paths_directLeak] at hnames
  exact ⟨report, after, written, hrun, hrows.trans (by decide +kernel),
    hcount.trans (by decide +kernel), hnames.trans hname, hreport⟩

/-- The counter is not the number of emitted rows without a three-address form. -/
theorem repeated_lock_overcounted :
    ¬∀ (bindings : Bindings) (skip : Bool) (instructions : List Instruction),
      (LoweredPath.ofInstructions bindings skip instructions).unsupported =
        (Lowering.emitted (Lowering.kept skip
          (Lowering.ofInstructions bindings instructions))).countP Lowering.isUnsupported := by
  intro h
  have hcounts := h .empty true [lock, lock]
  have hcounter : (LoweredPath.ofInstructions .empty true [lock, lock]).unsupported = 2 := by
    decide +kernel
  have hemitted : (Lowering.emitted (Lowering.kept true
      (Lowering.ofInstructions .empty [lock, lock]))).countP Lowering.isUnsupported = 1 := by
    decide +kernel
  rw [hcounter, hemitted] at hcounts
  exact absurd hcounts (by decide)

end LeakTrace
