import LeakTrace.Proofs.Extraction.Outputs
import Mathlib.Data.List.Dedup

namespace LeakTrace

open FileTree Emitter

def drawingName (graph : GraphId) (time : Time) : String :=
  String.ofList (Text.ofUInt64 graph) ++ "_" ++ String.ofList (Text.ofInt64 time)

private theorem drawingName_inj {graph graph' : GraphId} {time time' : Time} :
    drawingName graph time = drawingName graph' time' ↔ graph = graph' ∧ time = time' := by
  constructor
  · intro h
    have hchars : Text.ofUInt64 graph ++ '_' :: Text.ofInt64 time =
        Text.ofUInt64 graph' ++ '_' :: Text.ofInt64 time' := by
      simpa [drawingName] using congrArg String.toList h
    have hgraph : '_' ∉ Text.ofUInt64 graph' := Text.not_mem_digits (by decide)
    have htime : '_' ∉ Text.ofInt64 time' := Text.not_mem_ofInt64 (by decide) (by decide)
    obtain ⟨hids, -, htimes⟩ := (List.append_cons_inj_of_notMem hgraph htime).mp hchars.symm
    have hread := congrArg Text.readInt64? htimes
    rw [Text.readInt64?_ofInt64, Text.readInt64?_ofInt64] at hread
    exact ⟨UInt64.toNat_inj.mp (Text.digits_injective hids).symm, (Option.some.inj hread).symm⟩
  · rintro ⟨rfl, rfl⟩
    rfl

namespace Config

/-- The partitions of one graph, in the order of their sources. -/
def partitions (config : Config) (bindings : Bindings) (lines : List Fragment) : List Subgraph :=
  let flow := FlowGraph.build config bindings lines
  flow.sources.toList.filterMap flow.partition?

/-- The times of the sources that the partitions of one graph start at. -/
def partitionTimes (config : Config) (bindings : Bindings) (lines : List Fragment) : List Time :=
  (config.partitions bindings lines).map fun g => g.source.time

variable {config : Config} {r : Reconstruction}

private theorem length_drawings (hdump : config.dumpGraphs = true) :
    (config.drawings r).length = (Report.ofReconstruction config r).partitions := by
  rw [drawings, if_pos hdump]
  simp [Report.ofReconstruction, List.length_flatMap]

private theorem map_fst_drawings (hdump : config.dumpGraphs = true) :
    (config.drawings r).map Prod.fst =
      (r.graphs.entries.filter fun p => (r.bindings.sink? p.1).isSome).flatMap fun p =>
        (config.partitionTimes r.bindings p.2).map (drawingName p.1) := by
  rw [drawings, if_pos hdump, outcomes, List.flatMap_map, List.map_flatMap]
  simp only [graphOutcome, partitionTimes, partitions, List.map_map]
  rfl

/-- Names of drawings are distinct where the times of the sources are, in each graph. -/
theorem nodup_drawings_iff (hdump : config.dumpGraphs = true) :
    ((config.drawings r).map Prod.fst).Nodup ↔
      ∀ p ∈ r.graphs.entries, (r.bindings.sink? p.1).isSome = true →
        (config.partitionTimes r.bindings p.2).Nodup := by
  have hids : (r.graphs.entries.filter fun p => (r.bindings.sink? p.1).isSome).Pairwise
      fun p q => p.1 ≠ q.1 :=
    (List.pairwise_map.mp r.graphs.nodup).sublist List.filter_sublist
  have hinjective : ∀ graph, Function.Injective (drawingName graph) :=
    fun graph _ _ h => (drawingName_inj.mp h).2
  rw [map_fst_drawings hdump, List.nodup_flatMap]
  simp only [List.nodup_map_iff (hinjective _), List.mem_filter, and_imp]
  refine and_iff_left (hids.imp fun hne => ?_)
  rintro name hname hname'
  obtain ⟨time, -, rfl⟩ := List.mem_map.mp hname
  obtain ⟨time', -, hsame⟩ := List.mem_map.mp hname'
  exact hne (drawingName_inj.mp hsame).1.symm

end Config

variable {t t' : FileTree} {root : Route} {names : List String} {name : String}

private theorem Emitter.not_dotFile (hslash : '/' ∉ name.toList) (hname : name ∉ names) :
    ¬DotFile root names (dotFile root name).destination := by
  rintro ⟨other, hother, heq⟩
  rw [destination_dotFile hslash] at heq
  obtain rfl : name = other := by simpa using heq
  exact hname hother

private theorem drawn_of_chain {ds : List (String × String)} (hslash : ∀ d ∈ ds, '/' ∉ d.1.toList)
    (h : Chain (fun d t t' => Succeeds (writeGraph root d.1 d.2) t () t') ds t t') :
    AddsOnly (DotFile root (ds.map Prod.fst)) t t' ∧
      ∀ name ∈ ds.map Prod.fst, ∃ dot, ds.reverse.lookup name = some dot ∧
        t'.content? (dotFile root name) = some (Text.Utf8.encode dot) := by
  induction ds generalizing t with
  | nil =>
    obtain rfl : t = t' := h
    exact ⟨.refl t, fun name hname => absurd hname List.not_mem_nil⟩
  | cons d ds ih =>
    obtain ⟨t₁, hfirst, hrest⟩ := h
    obtain ⟨hd, hslash⟩ := List.forall_mem_cons.mp hslash
    obtain ⟨hadds, hcontent⟩ := addsOnly_writeGraph hd hfirst
    obtain ⟨hadds', hcontents⟩ := ih hslash hrest
    refine ⟨(hadds.mono ?_).trans (hadds'.mono ?_), fun name hname => ?_⟩
    · rintro q ⟨name, hname, hq⟩
      exact ⟨name, List.mem_singleton.mp hname ▸ List.mem_cons_self, hq⟩
    · rintro q ⟨name, hname, hq⟩
      exact ⟨name, List.mem_cons_of_mem _ hname, hq⟩
    · rw [List.reverse_cons, List.lookup_append]
      -- the first drawing is only still there if no later one has its name
      by_cases hlater : name ∈ ds.map Prod.fst
      · obtain ⟨dot, hlast, hshown⟩ := hcontents name hlater
        exact ⟨dot, by rw [hlast, Option.some_or], hshown⟩
      · obtain rfl : name = d.1 := (List.mem_cons.mp hname).resolve_right hlater
        have hnone : ds.reverse.lookup d.1 = none := by
          refine List.lookup_eq_none_iff.mpr fun other hother => ?_
          have hmem := List.mem_map_of_mem (f := Prod.fst) (List.mem_reverse.mp hother)
          simpa using fun heq : d.1 = other.1 => hlater (heq ▸ hmem)
        refine ⟨d.2, by rw [hnone, Option.none_or]; exact List.lookup_cons_self, ?_⟩
        exact hadds'.content? (not_dotFile hd hlater) hcontent

namespace Job

variable {config : Config} {log : TaintLog} {out : Route} {report : Report} {w after : Workspace}

/-- In the end every drawing is there that was not drawn over, and no other file is new beside them. -/
theorem drawn_extract (h : Succeeds (extract config log out) w report after) :
    let drawings := config.drawings log.reconstruct
    (∀ name ∈ drawings.map Prod.fst, ∃ dot, drawings.reverse.lookup name = some dot ∧
        after.files.content? (dotFile out name) = some (Text.Utf8.encode dot)) ∧
      ∀ q content, out.destination ++ [graphsDir] <+: q →
        after.files.lookup? q = some (.file content) →
        DotFile out (drawings.map Prod.fst) q ∨ w.files.lookup? q = some (.file content) := by
  intro drawings
  obtain ⟨created, steps, drawn, pathsWritten, hstages⟩ := succeeds_extract h
  have hslash : ∀ d ∈ drawings, '/' ∉ d.1.toList := fun d => Config.slash_not_mem_drawing
  obtain ⟨hdrawn, hcontents⟩ := drawn_of_chain hslash hstages.drawEach
  obtain ⟨-, hwritten, -⟩ := succeeds_writePaths hstages.write
  obtain ⟨hlast, -⟩ := changesOnly_writeSummary hstages.summarize
  have hpath : ∀ q, out.destination ++ [graphsDir] <+: q →
      ¬PathFile out (Ranking.names 1 (steps.map Prod.fst)) q := by
    rintro q hunder ⟨dir, hdir, name, -, rfl⟩
    have hgraphs : graphsDir = dir := by
      simpa [List.append_assoc, List.prefix_append_right_inj, List.cons_prefix_cons] using hunder
    exact absurd (hgraphs ▸ hdir) (by decide)
  have hsummary : ∀ q, out.destination ++ [graphsDir] <+: q →
      q ≠ out.destination ++ [summaryFile] := by
    rintro q hunder rfl
    have hgraphs : graphsDir = summaryFile := by
      simpa [List.prefix_append_right_inj, List.cons_prefix_cons] using hunder
    exact absurd hgraphs (by decide)
  constructor
  · intro name hname
    obtain ⟨dot, hlookup, hcontent⟩ := hcontents name hname
    obtain ⟨d, hd, rfl⟩ := List.mem_map.mp hname
    have hunder : out.destination ++ [graphsDir] <+: (dotFile out d.1).destination := by
      rw [destination_dotFile (hslash d hd)]
      exact List.prefix_append _ _
    exact ⟨dot, hlookup, hlast.content? (hsummary _ hunder)
      (hwritten.content? (hpath _ hunder) hcontent)⟩
  · intro q content hunder hfile
    rw [hlast.elsewhere q (hsummary q hunder), hwritten.elsewhere q (hpath q hunder)] at hfile
    exact (hdrawn.of_file hfile).imp_right (of_file_create hstages.create)

end Job

/-- A run that draws its partitions names one drawing for each of them. The names are distinct, and there
are as many files as partitions, just where the sources of each graph that has a sink have different
times. Each file shows what was drawn last under its name, and every other file that stands beside them
was there before. -/
theorem drawings_written (config : Config) (log : TaintLog) (out : Route) {w after : Workspace}
    {report : Report} (hdump : config.dumpGraphs = true)
    (h : Succeeds (Job.extract config log out) w report after) :
    let r := log.reconstruct
    let drawings := config.drawings r
    let names := drawings.map Prod.fst
    names.length = report.partitions ∧
      (names.Nodup ↔ ∀ p ∈ r.graphs.entries, (r.bindings.sink? p.1).isSome = true →
        (config.partitionTimes r.bindings p.2).Nodup) ∧
      (∀ name ∈ names, ∃ dot, drawings.reverse.lookup name = some dot ∧
        after.files.content? (dotFile out name) = some (Text.Utf8.encode dot)) ∧
      ∃ files : List Path, files.Nodup ∧ (∀ q, q ∈ files ↔ DotFile out names q) ∧
        (∀ q content, out.destination ++ [graphsDir] <+: q →
          after.files.lookup? q = some (.file content) →
          q ∈ files ∨ w.files.lookup? q = some (.file content)) ∧
        (files.length = report.partitions ↔ names.Nodup) := by
  intro r drawings names
  obtain ⟨hcontents, hothers⟩ := Job.drawn_extract h
  obtain ⟨_, _, _, _, hstages⟩ := Job.succeeds_extract h
  obtain ⟨hreport, -⟩ := Job.succeeds_writePaths hstages.write
  have hlength : names.length = report.partitions := by
    rw [hreport, List.length_map]
    exact Config.length_drawings hdump
  have hinjective : Function.Injective fun name : String =>
      out.destination ++ [graphsDir] ++ [name ++ ".dot"] := fun a b hab => by simpa using hab
  have hfiles : ∀ q, q ∈ (names.dedup.map fun name =>
      out.destination ++ [graphsDir] ++ [name ++ ".dot"]) ↔ DotFile out names q := by
    intro q
    simp only [List.mem_map, List.mem_dedup, DotFile, eq_comm]
  refine ⟨hlength, Config.nodup_drawings_iff hdump, hcontents, _,
    names.nodup_dedup.map hinjective, hfiles, fun q content hunder hfile => ?_, ?_⟩
  · rw [hfiles]
    exact hothers q content hunder hfile
  · rw [List.length_map, ← hlength]
    constructor
    · intro hsame
      exact List.dedup_eq_self.mp (names.dedup_sublist.eq_of_length hsame)
    · intro hnodup
      rw [List.dedup_eq_self.mpr hnodup]

/-- Two sources of one time lead to one sink. -/
def simultaneousLeak : List String :=
  ["SourceFound: f()id(3)", "SinkFound: g(), d",
    "DumpTaint-5: ->g()id(4)->left->f()id(3)->right->h()id(3)"]

def simultaneousLine : Fragment := ⟨⟨4, "g()"⟩, ⟨3, "f()"⟩, some ⟨3, "h()"⟩⟩

def simultaneousForks : List (Node × List Node) :=
  [(⟨3, "f()"⟩, [⟨4, "g()"⟩]), (⟨3, "h()"⟩, [⟨4, "g()"⟩])]

def drawingConfig : Config := { dumpGraphs := true }

private theorem reconstruct_simultaneousLeak :
    let log := TaintLog.ofLines simultaneousLeak
    log.reconstruct.graphs.entries = [(5, [simultaneousLine])] ∧
      log.bindings.sink? 5 = some ⟨"g()", "d"⟩ ∧
      drawingConfig.partitions log.bindings [simultaneousLine] =
        simultaneousForks.map fun fork => ⟨fork.1, FlowGraph.reverseEdges ∅ fork.1 fork.2⟩ := by
  intro log
  have hread : simultaneousLeak.map Reading.ofLine = [⟨.record (.origin ⟨3, "f()"⟩), ["f()"]⟩,
      ⟨.record (.sink ⟨"g()", "d"⟩), ["g()"]⟩,
      ⟨.record (.dump 5 simultaneousLine), ["g()", "f()", "h()"]⟩] := by decide +kernel
  have hlog : log = [⟨.record (.origin ⟨3, "f()"⟩), ["f()"]⟩,
      ⟨.record (.sink ⟨"g()", "d"⟩), ["g()"]⟩,
      ⟨.record (.dump 5 simultaneousLine), ["g()", "f()", "h()"]⟩].foldl TaintLog.addReading
        .empty := (TaintLog.ofLines_eq_foldl _).trans (by rw [hread])
  have hparsed : log.graphs.entries = [(5, [simultaneousLine])] ∧ log.boundaries = [] ∧
      (∀ n ∈ simultaneousLine.predecessors, log.cache.get? n = none) ∧
      log.bindings.sink? 5 = some ⟨"g()", "d"⟩ := by
    rw [hlog]
    decide +kernel
  obtain ⟨hgraphs, hboundaries, hunknown, hsink⟩ := hparsed
  have hflow :
      let flow := FlowGraph.build drawingConfig log.bindings [simultaneousLine]
      flow.sources.toList = simultaneousForks.map Prod.fst ∧
        ∀ fork ∈ simultaneousForks,
          flow.successors[fork.1]?.map Std.TreeSet.toList = some fork.2 ∧
            ∀ n ∈ fork.2, (flow.successors.erase fork.1)[n]? = none := by
    rw [hlog]
    decide +kernel
  obtain ⟨hsources, hforks⟩ := hflow
  have hparts := FlowGraph.filterMap_partition?_of_forks hforks
  rw [← hsources] at hparts
  refine ⟨?_, hsink, hparts⟩
  rw [TaintLog.graphs_reconstruct, TaintLog.closedGraphs_single hgraphs hunknown, hboundaries,
    GraphSet.ids, hgraphs]
  decide +kernel

private theorem drawings_simultaneousLeak :
    drawingConfig.drawings (TaintLog.ofLines simultaneousLeak).reconstruct =
      simultaneousForks.map fun fork =>
        Subgraph.drawing ⟨fork.1, FlowGraph.reverseEdges ∅ fork.1 fork.2⟩ 5 := by
  obtain ⟨hgraphs, hsink, hparts⟩ := reconstruct_simultaneousLeak
  have hdump : drawingConfig.dumpGraphs = true := rfl
  rw [Config.partitions] at hparts
  rw [Config.drawings, if_pos hdump, Config.outcomes_singleton hgraphs
    (TaintLog.bindings_reconstruct _) hsink, List.flatMap_singleton, Config.graphOutcome, hparts]
  simp only [List.map_map]
  rfl

private theorem simultaneousLeak_succeeds : ∃ report after, Succeeds
    (Job.extract drawingConfig (TaintLog.ofLines simultaneousLeak) (routeFromW "out"))
    staleWorkspace report after := by
  obtain ⟨hgraphs, hsink, hparts⟩ := reconstruct_simultaneousLeak
  have hpaths : drawingConfig.paths (TaintLog.ofLines simultaneousLeak).reconstruct =
      [⟨5, ⟨3, "f()"⟩, ⟨4, "g()"⟩, [⟨3, "f()"⟩, ⟨4, "g()"⟩], false⟩,
        ⟨5, ⟨3, "h()"⟩, ⟨4, "g()"⟩, [⟨3, "h()"⟩, ⟨4, "g()"⟩], false⟩] := by
    rw [Config.paths, Config.candidates_of_partitions hgraphs (TaintLog.bindings_reconstruct _)
      hsink hparts]
    decide +kernel
  have hok : (Id.run ((Job.extract drawingConfig (TaintLog.ofLines simultaneousLeak)
      (routeFromW "out")).run.run staleWorkspace)).1.isOk = true := by
    rw [Job.extract]
    simp only [hpaths, drawings_simultaneousLeak]
    decide +kernel
  obtain ⟨report, after, hrun, -⟩ := exists_succeeds hok
  exact ⟨report, after, hrun⟩

private theorem names_simultaneousLeak :
    (drawingConfig.drawings (TaintLog.ofLines simultaneousLeak).reconstruct).map Prod.fst =
      ["5_3", "5_3"] := by
  rw [drawings_simultaneousLeak]
  rfl

/-- Both partitions are counted, and one file shows one of them. -/
theorem simultaneousLeak_drawn_once : ∃ report after,
    Succeeds (Job.extract drawingConfig (TaintLog.ofLines simultaneousLeak) (routeFromW "out"))
        staleWorkspace report after ∧
      report.partitions = 2 ∧
      (∃ dot, after.files.content? (dotFile (routeFromW "out") "5_3") =
        some (Text.Utf8.encode dot)) ∧
      ∀ q content, ["w", "out", "graphs"] <+: q → after.files.lookup? q = some (.file content) →
        q = ["w", "out", "graphs", "5_3.dot"] := by
  obtain ⟨report, after, hrun⟩ := simultaneousLeak_succeeds
  obtain ⟨hlength, -, hcontents, files, -, hfiles, hothers, -⟩ :=
    drawings_written drawingConfig (TaintLog.ofLines simultaneousLeak) (routeFromW "out") rfl hrun
  rw [names_simultaneousLeak] at hlength hcontents hfiles
  have hout : (routeFromW "out").destination = ["w", "out"] := rfl
  have hnone : ∀ q content, ["w", "out", "graphs"] <+: q →
      staleWorkspace.files.lookup? q ≠ some (.file content) := by
    rintro q content ⟨rest, rfl⟩ hold
    have hbare : staleOutput.below ["w", "out", "graphs"] = [] := rfl
    by_cases hrest : rest = []
    · have hmissing : staleOutput.lookup? ["w", "out", "graphs"] = none := rfl
      rw [hrest, List.append_nil] at hold
      exact absurd (hmissing.symm.trans hold) (by simp)
    · have hbelow := mem_below.mpr ⟨hrest, hold⟩
      exact absurd (hbare ▸ hbelow) List.not_mem_nil
  refine ⟨report, after, hrun, hlength.symm, ?_, fun q content hunder hfile => ?_⟩
  · obtain ⟨dot, -, hcontent⟩ := hcontents "5_3" List.mem_cons_self
    exact ⟨dot, hcontent⟩
  · rcases hothers q content (hout ▸ hunder) hfile with hnew | hold
    · obtain ⟨name, hname, rfl⟩ := (hfiles q).mp hnew
      obtain rfl : name = "5_3" := by simpa using hname
      rw [hout]
      rfl
    · exact absurd hold (hnone q content hunder)

/-- Two partitions are drawn under one name. -/
theorem simultaneous_drawings_collide :
    ¬∀ (config : Config) (log : TaintLog), config.dumpGraphs = true →
      ((config.drawings log.reconstruct).map Prod.fst).Nodup := by
  intro h
  have hnodup := h drawingConfig (TaintLog.ofLines simultaneousLeak) rfl
  rw [names_simultaneousLeak] at hnodup
  exact absurd hnodup (by decide)

end LeakTrace
