import LeakTrace.Proofs.Graph.OwnLines
import LeakTrace.Proofs.Graph.Provenance

namespace LeakTrace

/-- What the cache knows about a node is closed exactly if it is one of the lines or a closed
fragment was derived from the node. -/
theorem cached_mem_closeGraph_iff {cache : FragmentCache} (hkeyed : cache.Keyed)
    {lines : List Fragment} {n : Node} {c : Fragment} (hc : cache.get? n = some c) :
    c ∈ closeGraph cache lines ↔
      c ∈ lines ∨ ∃ f ∈ closeGraph cache lines, n ∈ f.predecessors := by
  constructor
  · intro hclosed
    by_cases hline : c ∈ lines
    · exact .inl hline
    · obtain ⟨ahead, behind, hsplit⟩ := List.append_of_mem hclosed
      obtain ⟨f, hf, hp⟩ := introduced_closeGraph hkeyed lines ahead c behind hsplit hline
      rw [hkeyed n c hc] at hp
      exact .inr ⟨f, hsplit ▸ List.mem_append_left _ hf, hp⟩
  · rintro (hline | ⟨f, hf, hp⟩)
    · exact (completes_closeGraph hkeyed lines).lines_mem c hline
    · exact (completes_closeGraph hkeyed lines).cached_mem f hf n hp c hc

private theorem exists_latestDump {lines : List String} {f : Fragment} (h : ∃ g, Dumps lines g f) :
    ∃ latest, latestDump? lines f.node = some latest := by
  have hmem : f ∈ (lines.filterMap dumpedFragment?).filter (·.node = f.node) :=
    List.mem_filter.mpr ⟨mem_dumpedFragments.mpr h, by simp⟩
  exact ⟨_, List.getLast?_eq_some_getLast (List.ne_nil_of_mem hmem)⟩

variable {lines : List String} {g : GraphId} {closed : List Fragment} {f : Fragment}

/-- For each node of a closed graph some fragment was dumped last. It is in the graph exactly if it
was dumped under the graph itself or something in the graph was derived from the node. So it is in
the graph for every fragment that was pulled in from another one. -/
theorem latest_dump_closed (hclosed : (TaintLog.ofLines lines).closedGraphs.get? g = some closed)
    (hf : f ∈ closed) :
    ∃ latest, latestDump? lines f.node = some latest ∧
      (latest ∈ closed ↔ Dumps lines g latest ∨ ∃ h ∈ closed, f.node ∈ h.predecessors) ∧
      (¬Dumps lines g f → latest ∈ closed) := by
  obtain ⟨latest, hlatest⟩ := exists_latestDump ((TaintLog.get?_closedGraphs hclosed).2 f hf)
  obtain ⟨own, rfl, hown⟩ := TaintLog.exists_own_of_closedGraphs hclosed
  have hkeyed := TaintLog.keyed_cache lines
  have hcached : (TaintLog.ofLines lines).cache.get? f.node = some latest := by
    rw [TaintLog.cached_ofLines, hlatest]
  refine ⟨latest, hlatest, ?_, fun hforeign => ?_⟩
  · rw [← hown]
    exact cached_mem_closeGraph_iff hkeyed hcached
  · -- a fragment from elsewhere was taken from the cache, so it is the latest one
    have hfcached := cached_of_mem_closeGraph hkeyed hf fun hmem => hforeign ((hown f).mp hmem)
    obtain rfl := Option.some.inj (hcached.symm.trans hfcached)
    exact hf

/-- A node that is dumped under three graphs, and with a second predecessor only under the last. -/
def redumpedNode : List String :=
  ["DumpTaint-5: ->n()id(11)->left->a()id(10)", "DumpTaint-6: ->y()id(12)->left->n()id(11)",
    "DumpTaint-6: ->n()id(11)->left->a()id(10)",
    "DumpTaint-7: ->n()id(11)->left->a()id(10)->right->b()id(9)"]

def earlyDump : Fragment := ⟨⟨11, "n()"⟩, ⟨10, "a()"⟩, none⟩

def nodeReader : Fragment := ⟨⟨12, "y()"⟩, ⟨11, "n()"⟩, none⟩

def lateDump : Fragment := ⟨⟨11, "n()"⟩, ⟨10, "a()"⟩, some ⟨9, "b()"⟩⟩

private theorem readings_redumpedNode : redumpedNode.map Reading.ofLine =
    [⟨.record (.dump 5 earlyDump), ["n()", "a()"]⟩, ⟨.record (.dump 6 nodeReader), ["y()", "n()"]⟩,
      ⟨.record (.dump 6 earlyDump), ["n()", "a()"]⟩,
      ⟨.record (.dump 7 lateDump), ["n()", "a()", "b()"]⟩] := by
  decide +kernel

private theorem latestDump_redumpedNode : latestDump? redumpedNode ⟨11, "n()"⟩ = some lateDump := by
  rw [← TaintLog.cached_ofLines, TaintLog.ofLines_eq_foldl, readings_redumpedNode]
  decide +kernel

private theorem closedGraphs_redumpedNode :
    (TaintLog.ofLines redumpedNode).closedGraphs.get? 5 = some [earlyDump] ∧
      (TaintLog.ofLines redumpedNode).closedGraphs.get? 6 =
        some [nodeReader, lateDump, earlyDump] := by
  have hlate := TaintLog.cached_ofLines redumpedNode ⟨11, "n()"⟩
  rw [latestDump_redumpedNode] at hlate
  generalize hlog : TaintLog.ofLines redumpedNode = log at hlate ⊢
  rw [TaintLog.ofLines_eq_foldl, readings_redumpedNode] at hlog
  have hgraphs : log.graphs.get? 5 = some [earlyDump] ∧
      log.graphs.get? 6 = some [nodeReader, earlyDump] := by
    rw [← hlog]
    decide +kernel
  have hunknown : ∀ n ∈ lateDump.predecessors,
      log.cache.get? n = none ∧ (log.cache.erase ⟨11, "n()"⟩).get? n = none := by
    rw [← hlog]
    decide +kernel
  have hearly : ∀ n ∈ earlyDump.predecessors, n ∈ lateDump.predecessors := by decide +kernel
  have hfive : closeLine (log.cache, []) earlyDump = (log.cache, [earlyDump]) :=
    closeLine_of_unknown List.not_mem_nil fun n hn => (hunknown n (hearly n hn)).1
  have hreader : closeLine (log.cache, []) nodeReader =
      (log.cache.erase ⟨11, "n()"⟩, [nodeReader, lateDump]) :=
    closeLine_of_known List.not_mem_nil hlate (by decide) fun n hn => (hunknown n hn).2
  have hsix : closeLine (log.cache.erase ⟨11, "n()"⟩, [nodeReader, lateDump]) earlyDump =
      (log.cache.erase ⟨11, "n()"⟩, [nodeReader, lateDump, earlyDump]) :=
    closeLine_of_unknown (by decide) fun n hn => (hunknown n (hearly n hn)).2
  simp only [TaintLog.closedGraphs, GraphSet.close, GraphSet.get?_map, hgraphs, Option.map_some,
    closeGraph, List.foldl_cons, List.foldl_nil, hfive, hreader, hsix, and_self]

/-- Where a reader of the node was dumped, the latest fragment stands beside the early one. -/
theorem redumpedNode_latest_closed :
    (TaintLog.ofLines redumpedNode).closedGraphs.get? 6 =
        some [nodeReader, lateDump, earlyDump] ∧
      ∃ latest, latestDump? redumpedNode earlyDump.node = some latest ∧
        latest ∈ [nodeReader, lateDump, earlyDump] := by
  have hclosed := closedGraphs_redumpedNode.2
  obtain ⟨latest, hlatest, hiff, -⟩ := latest_dump_closed hclosed (f := earlyDump) (by simp)
  exact ⟨hclosed, latest, hlatest, hiff.mpr (.inr ⟨nodeReader, List.mem_cons_self, by decide⟩)⟩

/-- Where the node was dumped alone, the early fragment is all that its graph knows. -/
theorem early_dump_alone :
    ¬∀ (lines : List String) (g : GraphId) (closed : List Fragment) (f : Fragment),
      (TaintLog.ofLines lines).closedGraphs.get? g = some closed → f ∈ closed →
        ∃ latest, latestDump? lines f.node = some latest ∧ latest ∈ closed := by
  intro h
  obtain ⟨latest, hlatest, hmem⟩ := h redumpedNode 5 [earlyDump] earlyDump
    closedGraphs_redumpedNode.1 (List.mem_singleton_self _)
  obtain rfl := Option.some.inj (hlatest.symm.trans latestDump_redumpedNode)
  exact absurd hmem (by decide)

end LeakTrace
