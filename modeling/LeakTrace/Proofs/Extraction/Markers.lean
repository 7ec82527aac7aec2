import LeakTrace.Proofs.Extraction.Paths

namespace LeakTrace

open Relation

/-- The nodes that the path shows. -/
def LeakPath.nodes (p : LeakPath) : List Node := p.source :: p.sink :: p.steps

/-- What holds of the source and of every node that an edge leads to holds of all nodes of a path. -/
theorem LeakPath.BackedBy.forall_nodes {P : Node → Prop} {p : LeakPath} {flow : FlowGraph}
    (h : p.BackedBy flow) (hsource : P p.source) (hedge : ∀ a b, flow.Edge a b → P b) :
    ∀ n ∈ p.nodes, P n := by
  have hreached : ∀ n, ReflTransGen flow.Edge p.source n → P n := by
    intro n hn
    cases hn with
    | refl => exact hsource
    | tail _ hlast => exact hedge _ _ hlast
  intro n hn
  rcases List.mem_cons.mp hn with rfl | hn
  · exact hsource
  · rcases List.mem_cons.mp hn with rfl | hn
    · exact hreached p.sink h.sink_reached.to_reflTransGen
    · exact hreached n (h.steps_reached n hn)

private theorem Config.backed_of_mem_paths {config : Config} {r : Reconstruction} {p : LeakPath}
    (h : p ∈ config.paths r) : ∃ lines, r.graphs.get? p.graph = some lines ∧
      p.BackedBy (FlowGraph.build config r.bindings lines) := by
  obtain ⟨lines, hlines, -, -, hbacked⟩ := mem_candidates (Ranking.mem_of_mem_deduplicate h)
  exact ⟨lines, hlines, hbacked⟩

/-- No path holds a boundary node, whatever the boundary lines of a log refer to. -/
theorem paths_avoid_boundaries (config : Config) (lines : List String) {p : LeakPath}
    (h : p ∈ config.paths (TaintLog.ofLines lines).reconstruct) :
    ∀ n ∈ p.nodes, ¬Text.Has "(-2)" n.statement.toList := by
  obtain ⟨fragments, -, hbacked⟩ := Config.backed_of_mem_paths h
  have hnodes : ∀ n ∈ p.nodes, n.isBoundary = false := by
    refine hbacked.forall_nodes hbacked.source_not_boundary fun a b hedge => ?_
    exact (FlowGraph.edge_build.mp hedge).2.not_boundary
  intro n hn
  exact of_decide_eq_false (hnodes n hn)

/-- Neither the line nor a bridge behind it derives a root. -/
def Fragment.DerivesNoRoot (f : Fragment) : Prop :=
  f.node.isRoot = false ∧ (consumer f).isRoot = false

instance (f : Fragment) : Decidable f.DerivesNoRoot :=
  inferInstanceAs (Decidable (f.node.isRoot = false ∧ (consumer f).isRoot = false))

private theorem keptByBridges_derivesNoRoot : KeptByBridges Fragment.DerivesNoRoot := by
  intro previous first hprevious hfirst
  refine ⟨hprevious.2, ?_⟩
  rw [consumer]
  split
  · next h =>
    simp only [Bool.and_eq_true, Bool.not_eq_true'] at h
    exact h.2
  · exact hprevious.2

private theorem FlowGraph.edge_not_root {config : Config} {bindings : Bindings}
    {lines : List Fragment}
    {a b : Node} (hlines : ∀ f ∈ lines, f.DerivesNoRoot)
    (hrepair : config.repairFrameworkLinks = false ∨ config.isFramework "STARTPATH" = false)
    (h : (build config bindings lines).Edge a b) : b.isRoot = false := by
  obtain ⟨⟨d, hd, rfl, -⟩, -⟩ := edge_build.mp h
  obtain ⟨line, hline, -, heq | ⟨hon, hframework⟩⟩ := Config.mem_derivations hd
  · rw [heq]
    exact (hlines line hline).1
  · -- the link was repaired to a node of the framework, and roots are none
    refine decide_eq_false fun hroot => ?_
    rcases hrepair with hoff | hnone
    · exact absurd (hon.symm.trans hoff) (by decide)
    · rw [hroot] at hframework
      exact absurd (hframework.symm.trans hnone) (by decide)

/-- A path never starts at a root. It holds none at all if neither a dumped line nor a bridge behind
one derives a root, and roots do not belong to a framework of which links are repaired. -/
theorem paths_avoid_roots (config : Config) (lines : List String) {p : LeakPath}
    (h : p ∈ config.paths (TaintLog.ofLines lines).reconstruct) :
    p.source.statement ≠ "STARTPATH" ∧
      ((∀ g f, Dumps lines g f → f.DerivesNoRoot) →
        (config.repairFrameworkLinks = false ∨ config.isFramework "STARTPATH" = false) →
        ∀ n ∈ p.nodes, n.statement ≠ "STARTPATH") := by
  obtain ⟨fragments, hfragments, hbacked⟩ := Config.backed_of_mem_paths h
  refine ⟨of_decide_eq_false hbacked.source_not_root, fun hdumped hrepair => ?_⟩
  have hlines := forall_reconstruct keptByBridges_derivesNoRoot hdumped p.graph fragments hfragments
  have hnodes : ∀ n ∈ p.nodes, n.isRoot = false :=
    hbacked.forall_nodes hbacked.source_not_root fun a b hedge =>
      FlowGraph.edge_not_root hlines hrepair hedge
  intro n hn
  exact of_decide_eq_false (hnodes n hn)

/-- A source that was written into a parcel, and a sink that read it from there. A binary sink has
a second operand without a history. -/
def parcelLeak (binary : Bool) : List String :=
  ["SourceFound: f()id(10)", "DumpTaint for parcel: 7",
    "DumpTaint-7: ->f()id(10)->left->STARTPATH(10)", "SinkFound: g(), d",
    if binary then "DumpTaint-5: ->g()id(50)->left->7(-2)id(49)->right->STARTPATH(48)"
    else "DumpTaint-5: ->g()id(50)->left->7(-2)id(49)",
    "DumpTaint-5: ->7(-2)id(49)->left->STARTPATH(49)"]

def parcelSource : Fragment := ⟨⟨10, "f()"⟩, ⟨10, "STARTPATH"⟩, none⟩

def parcelSink (binary : Bool) : Fragment :=
  ⟨⟨50, "g()"⟩, ⟨49, "7(-2)"⟩, if binary then some ⟨48, "STARTPATH"⟩ else none⟩

def parcelBoundary : Fragment := ⟨⟨49, "7(-2)"⟩, ⟨49, "STARTPATH"⟩, none⟩

private theorem readings_parcelLeak (binary : Bool) : (parcelLeak binary).map Reading.ofLine =
    [⟨.record (.origin ⟨10, "f()"⟩), ["f()"]⟩, ⟨.record (.boundary 7), []⟩,
      ⟨.record (.dump 7 parcelSource), ["f()", "STARTPATH"]⟩,
      ⟨.record (.sink ⟨"g()", "d"⟩), ["g()"]⟩,
      ⟨.record (.dump 5 (parcelSink binary)),
        ["g()", "7(-2)"] ++ if binary then ["STARTPATH"] else []⟩,
      ⟨.record (.dump 5 parcelBoundary), ["7(-2)", "STARTPATH"]⟩] := by
  cases binary <;> decide +kernel

private theorem closeGraph_parcelSource {cache : FragmentCache}
    (hroot : cache.get? ⟨10, "STARTPATH"⟩ = none) :
    closeGraph cache [parcelSource] = [parcelSource] := by
  refine closeGraph_of_unknown ?_
  simpa [parcelSource, Fragment.predecessors] using hroot

private theorem closeGraph_parcelSink {cache : FragmentCache} {binary : Bool}
    (hboundary : cache.get? ⟨49, "7(-2)"⟩ = some parcelBoundary)
    (hroots : ∀ n ∈ (parcelSink binary).right.toList ++ parcelBoundary.predecessors,
      (cache.erase ⟨49, "7(-2)"⟩).get? n = none) :
    closeGraph cache [parcelSink binary, parcelBoundary] = [parcelSink binary, parcelBoundary] := by
  have hnew : parcelBoundary ∉ [parcelSink binary] := by cases binary <;> decide
  have hsink : closeLine (cache, []) (parcelSink binary) =
      (cache.erase ⟨49, "7(-2)"⟩, [parcelSink binary, parcelBoundary]) :=
    closeLine_of_known List.not_mem_nil hboundary hnew hroots
  have hmem : parcelBoundary ∈ [parcelSink binary, parcelBoundary] :=
    List.mem_cons_of_mem _ (List.mem_singleton_self parcelBoundary)
  rw [closeGraph, List.foldl_cons, hsink, List.foldl_cons, List.foldl_nil, closeLine, if_pos hmem]

def parcelLines (binary : Bool) : List Fragment :=
  [parcelSink binary, ⟨consumer (parcelSink binary), ⟨10, "f()"⟩, none⟩, parcelSource]

private theorem graphs_parcelLeak (binary : Bool) :
    (TaintLog.ofLines (parcelLeak binary)).reconstruct.graphs.entries =
      [(5, parcelLines binary)] := by
  generalize hlog : TaintLog.ofLines (parcelLeak binary) = log
  rw [TaintLog.ofLines_eq_foldl, readings_parcelLeak] at hlog
  have hgraphs : log.graphs.entries =
      [(7, [parcelSource]), (5, [parcelSink binary, parcelBoundary])] := by
    rw [← hlog]
    cases binary <;> decide +kernel
  have hboundaries : log.boundaries = [7] := by
    rw [← hlog]
    cases binary <;> decide +kernel
  have hroot : log.cache.get? ⟨10, "STARTPATH"⟩ = none := by
    rw [← hlog]
    cases binary <;> decide +kernel
  have hboundary : log.cache.get? ⟨49, "7(-2)"⟩ = some parcelBoundary := by
    rw [← hlog]
    cases binary <;> decide +kernel
  have hroots : ∀ n ∈ (parcelSink binary).right.toList ++ parcelBoundary.predecessors,
      (log.cache.erase ⟨49, "7(-2)"⟩).get? n = none := by
    rw [← hlog]
    cases binary <;> decide +kernel
  have hclosed : log.closedGraphs =
      ⟨[(7, [parcelSource]), (5, [parcelSink binary, parcelBoundary])], by simp⟩ := by
    apply GraphSet.ext
    rw [TaintLog.closedGraphs, GraphSet.entries_close, hgraphs, List.map_cons, List.map_singleton,
      closeGraph_parcelSource hroot, closeGraph_parcelSink hboundary hroots]
  rw [TaintLog.graphs_reconstruct, hclosed, hboundaries, GraphSet.ids, hgraphs]
  cases binary <;> decide +kernel

/-- The path that `parcelLeak` shows. It ends at the node that the bridge takes for the reader. -/
def parcelPath (binary : Bool) : LeakPath :=
  ⟨5, ⟨10, "f()"⟩, consumer (parcelSink binary), [⟨10, "f()"⟩, consumer (parcelSink binary)], false⟩

private theorem paths_parcelLeak (binary : Bool) :
    Config.paths {} (TaintLog.ofLines (parcelLeak binary)).reconstruct = [parcelPath binary] := by
  have hgraphs := graphs_parcelLeak binary
  generalize hlog : TaintLog.ofLines (parcelLeak binary) = log at hgraphs ⊢
  rw [TaintLog.ofLines_eq_foldl, readings_parcelLeak] at hlog
  have hsink : log.bindings.sink? 5 = some ⟨"g()", "d"⟩ := by
    rw [← hlog]
    cases binary <;> decide +kernel
  have hsources : (FlowGraph.build {} log.bindings (parcelLines binary)).sources.toList =
      [⟨10, "f()"⟩] := by
    rw [← hlog]
    cases binary <;> decide +kernel
  have hpart : (FlowGraph.build {} log.bindings (parcelLines binary)).partition? ⟨10, "f()"⟩ =
      some ⟨⟨10, "f()"⟩, FlowGraph.reverseEdges ∅ ⟨10, "f()"⟩ [consumer (parcelSink binary)]⟩ := by
    rw [← hlog]
    cases binary <;> exact FlowGraph.partition?_of_leaves (by decide +kernel) (by decide +kernel)
  have hcandidates : Config.candidates {} log.reconstruct = [parcelPath binary] := by
    rw [Config.candidates_singleton hgraphs (TaintLog.bindings_reconstruct log) hsink hsources hpart]
    cases binary <;> decide +kernel
  rw [Config.paths, hcandidates]
  cases binary <;> decide +kernel

private theorem mem_paths_parcelLeak (binary : Bool) :
    parcelPath binary ∈ Config.paths {} (TaintLog.ofLines (parcelLeak binary)).reconstruct := by
  rw [paths_parcelLeak]
  exact List.mem_singleton_self _

/-- The path runs from the writer to the reader, and not over the boundary node between them. -/
theorem parcelPath_avoids_boundaries :
    parcelPath false ∈ Config.paths {} (TaintLog.ofLines (parcelLeak false)).reconstruct ∧
      ∀ n ∈ (parcelPath false).nodes, ¬Text.Has "(-2)" n.statement.toList := by
  have hmem := mem_paths_parcelLeak false
  exact ⟨hmem, paths_avoid_boundaries {} (parcelLeak false) hmem⟩

private theorem mem_of_dumps_parcelLeak {binary : Bool} {g : GraphId} {f : Fragment}
    (h : Dumps (parcelLeak binary) g f) :
    f ∈ [parcelSource, parcelSink binary, parcelBoundary] := by
  obtain ⟨line, hline, hcontent⟩ := h
  have hread := List.mem_map_of_mem (f := Reading.ofLine) hline
  rw [readings_parcelLeak] at hread
  generalize Reading.ofLine line = reading at hread hcontent
  simp only [List.mem_cons, List.not_mem_nil, or_false] at hread
  rcases hread with rfl | rfl | rfl | rfl | rfl | rfl <;> simp at hcontent <;> simp [hcontent]

/-- A sink with one operand is read from the boundary itself. -/
theorem parcelPath_avoids_roots :
    parcelPath false ∈ Config.paths {} (TaintLog.ofLines (parcelLeak false)).reconstruct ∧
      (∀ g f, Dumps (parcelLeak false) g f → f.DerivesNoRoot) ∧
      ∀ n ∈ (parcelPath false).nodes, n.statement ≠ "STARTPATH" := by
  have hmem := mem_paths_parcelLeak false
  have hnone : ∀ f ∈ [parcelSource, parcelSink false, parcelBoundary], f.DerivesNoRoot := by
    decide +kernel
  have hdumped : ∀ g f, Dumps (parcelLeak false) g f → f.DerivesNoRoot :=
    fun g f hdump => hnone f (mem_of_dumps_parcelLeak hdump)
  have hframework : Config.isFramework {} "STARTPATH" = false := by decide +kernel
  exact ⟨hmem, hdumped, (paths_avoid_roots {} (parcelLeak false) hmem).2 hdumped (.inr hframework)⟩

/-- The second operand of the sink is a root, and the path ends there instead of at the sink. -/
theorem parcelPath_ends_at_root :
    ¬∀ (config : Config) (lines : List String) (p : LeakPath),
      p ∈ config.paths (TaintLog.ofLines lines).reconstruct →
        ∀ n ∈ p.nodes, n.statement ≠ "STARTPATH" := by
  intro h
  have hsink : (parcelPath true).sink ∈ (parcelPath true).nodes :=
    List.mem_cons_of_mem _ List.mem_cons_self
  have hroot : (parcelPath true).sink.statement = "STARTPATH" := by decide +kernel
  exact h {} (parcelLeak true) (parcelPath true) (mem_paths_parcelLeak true) _ hsink hroot

end LeakTrace
