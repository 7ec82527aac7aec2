import LeakTrace.Proofs.Path.Synthesis

namespace LeakTrace

open Relation

/-- No other node of the subgraph was created at the node's time. -/
def Subgraph.HasOwnTime (g : Subgraph) (n : Node) : Prop :=
  ∀ m ∈ g.source :: g.predecessors.keys, m.time = n.time → m = n

instance (g : Subgraph) (n : Node) : Decidable (g.HasOwnTime n) :=
  inferInstanceAs (Decidable (∀ m ∈ g.source :: g.predecessors.keys, m.time = n.time → m = n))

/-- The edge leads to a node that has its time to itself. -/
def Subgraph.ClearEdge (g : Subgraph) (a b : Node) : Prop := g.Edge a b ∧ g.HasOwnTime b

namespace Walk.Visits

variable {g : Subgraph} {sink a b : Node} {unseen : Std.TreeSet Time} {met : List Node}

private theorem mem_nodes_of_met (h : Visits g sink unseen met []) (ha : a ∈ met) :
    a ∈ g.source :: g.predecessors.keys := by
  have hreached := h.reached a (List.mem_append_left _ ha)
  rcases ReflTransGen.cases_tail hreached with heq | ⟨b, -, -, hedge⟩
  · rw [heq]
    exact List.mem_cons_self
  · have hkey := Std.TreeMap.mem_keys.mpr (Subgraph.mem_predecessors_of_edge hedge)
    exact List.mem_cons_of_mem g.source hkey

theorem exists_met_of_leads (h : Visits g sink unseen met []) (ha : a ∈ met)
    (hlead : g.Leads sink a b) : ∃ m ∈ met, m.time = b.time := by
  have htime := h.seen_time b (Subgraph.mem_predecessors_of_edge hlead.2) (h.followed a ha b hlead)
  rw [List.append_nil] at htime
  exact List.mem_map.mp htime

/-- Over nodes that have their times to themselves, the walk gets as far as it leads. -/
theorem mem_of_ownTimes (h : Visits g sink unseen met [])
    (hchain : ReflTransGen (fun a b => g.Leads sink a b ∧ g.HasOwnTime b) g.source b) : b ∈ met := by
  induction hchain with
  | refl =>
    have hstarts := h.starts
    rw [List.append_nil] at hstarts
    exact List.mem_of_head? hstarts
  | @tail m n _ hstep ih =>
    obtain ⟨hlead, hown⟩ := hstep
    obtain ⟨k, hk, htime⟩ := h.exists_met_of_leads ih hlead
    rw [← hown k (h.mem_nodes_of_met hk) htime]
    exact hk

private theorem mem_of_clearEdges (h : Visits g sink unseen met []) (hlast : ∀ n, ¬g.Edge sink n)
    (hchain : ReflTransGen g.ClearEdge g.source b) : b ∈ met := by
  refine h.mem_of_ownTimes (ReflTransGen.mono ?_ _ _ hchain)
  rintro m n ⟨hedge, hown⟩
  have hne : m ≠ sink := by
    rintro rfl
    exact hlast n hedge
  exact ⟨⟨hne, hedge⟩, hown⟩

end Walk.Visits

namespace Subgraph

private theorem synthesize_ne_unreachable {g : Subgraph} {sink : Node} (graph : GraphId)
    (hsource : ∃ b, g.Edge g.source b) (hlast : ∀ n, ¬g.Edge sink n)
    (hchain : ReflTransGen g.ClearEdge g.source sink) :
    g.synthesize graph sink ≠ .unreachable := by
  intro hlost
  rcases g.synthesize_cases graph sink with ⟨hnone, -⟩ | ⟨n, -, -, heq⟩ | ⟨unseen, met, hvisits, heq⟩
  · obtain ⟨b, hb⟩ := hsource
    exact hnone b hb
  · exact absurd (hlost.symm.trans heq) (by simp)
  · have hmet : ∃ n ∈ met, n.statement = sink.statement :=
      ⟨sink, hvisits.mem_of_clearEdges hlast hchain, rfl⟩
    rw [if_pos hmet] at heq
    exact absurd (hlost.symm.trans heq) (by simp)

end Subgraph

/-- A walk takes two nodes of one time for the same node. A selected sink is found, or the order of time
is seen to be broken, where a chain of edges leads to it over nodes that have their times to themselves. -/
theorem FlowGraph.selected_sink_found {config : Config} {bindings : Bindings} {lines : List Fragment}
    {source sink : Node} {part : Subgraph} {recorded : Option Sink} {fallback : SinkSelection}
    (graph : GraphId) (hpart : (build config bindings lines).partition? source = some part)
    (hsink : part.selectSink? recorded fallback = some sink)
    (hchain : ReflTransGen part.ClearEdge source sink) :
    (∃ p, part.synthesize graph sink = .path p) ∨
      ∃ n, part.synthesize graph sink = .causalViolation n := by
  obtain ⟨hmem, hlast⟩ := Subgraph.mem_terminals.mp (Subgraph.mem_terminals_of_selectSink? hsink)
  obtain ⟨hsource, hedge, hlisted⟩ := partition?_spec hpart
  obtain ⟨b, hb, -⟩ := TransGen.head'_iff.mp ((mem_partition? hpart).mp hmem)
  have hfirst : ∃ b, part.Edge part.source b := ⟨b, hsource ▸ (hedge source b).mpr ⟨.refl, hb⟩⟩
  have hfound := part.synthesize_ne_unreachable graph hfirst hlast (hsource ▸ hchain)
  cases hsynthesis : part.synthesize graph sink with
  | path p => exact .inl ⟨p, rfl⟩
  | unreachable => exact absurd hsynthesis hfound
  | causalViolation n => exact .inr ⟨n, rfl⟩

/-- Two nodes of one time that were derived from one source. -/
def twins : List Fragment :=
  [⟨⟨11, "a"⟩, ⟨10, "x"⟩, none⟩, ⟨⟨11, "b"⟩, ⟨10, "x"⟩, none⟩, ⟨⟨12, "y"⟩, ⟨10, "x"⟩, none⟩]

def twinsPart : Subgraph :=
  ⟨⟨10, "x"⟩, FlowGraph.reverseEdges ∅ ⟨10, "x"⟩ [⟨11, "a"⟩, ⟨11, "b"⟩, ⟨12, "y"⟩]⟩

private theorem partition_twins :
    (FlowGraph.build {} .empty twins).partition? ⟨10, "x"⟩ = some twinsPart :=
  FlowGraph.partition?_of_leaves (by decide +kernel) (by decide +kernel)

theorem twins_selected_sink_found :
    twinsPart.selectSink? none .last = some ⟨12, "y"⟩ ∧
      ReflTransGen twinsPart.ClearEdge ⟨10, "x"⟩ ⟨12, "y"⟩ ∧
      ((∃ p, twinsPart.synthesize 1 ⟨12, "y"⟩ = .path p) ∨
        ∃ n, twinsPart.synthesize 1 ⟨12, "y"⟩ = .causalViolation n) := by
  have hsink : twinsPart.selectSink? none .last = some ⟨12, "y"⟩ := by decide +kernel
  have hedge : twinsPart.Edge ⟨10, "x"⟩ ⟨12, "y"⟩ := Subgraph.mem_edges.mp (by decide +kernel)
  have hchain : ReflTransGen twinsPart.ClearEdge ⟨10, "x"⟩ ⟨12, "y"⟩ :=
    .single ⟨hedge, by decide +kernel⟩
  exact ⟨hsink, hchain, FlowGraph.selected_sink_found 1 partition_twins hsink hchain⟩

/-- A sink that is derived in two steps, and before that a node of the sink's time. -/
def overtaken : List Fragment :=
  [⟨⟨11, "m"⟩, ⟨10, "x"⟩, none⟩, ⟨⟨12, "b"⟩, ⟨10, "x"⟩, none⟩, ⟨⟨12, "a"⟩, ⟨11, "m"⟩, none⟩]

def overtakenPart : Subgraph :=
  ⟨⟨10, "x"⟩, FlowGraph.reverseEdges
    (FlowGraph.reverseEdges ∅ ⟨10, "x"⟩ [⟨11, "m"⟩, ⟨12, "b"⟩]) ⟨11, "m"⟩ [⟨12, "a"⟩]⟩

private theorem partition_overtaken :
    (FlowGraph.build {} .empty overtaken).partition? ⟨10, "x"⟩ = some overtakenPart := by
  generalize hflow : FlowGraph.build {} .empty overtaken = flow
  have hfirst : flow.successors[(⟨10, "x"⟩ : Node)]?.map Std.TreeSet.toList =
      some [⟨11, "m"⟩, ⟨12, "b"⟩] := by
    rw [← hflow]
    decide +kernel
  have hsecond : (flow.successors.erase ⟨10, "x"⟩)[(⟨11, "m"⟩ : Node)]?.map Std.TreeSet.toList =
      some [⟨12, "a"⟩] := by
    rw [← hflow]
    decide +kernel
  have hleaves : ∀ n ∈ [(⟨12, "a"⟩ : Node), ⟨12, "b"⟩],
      ((flow.successors.erase ⟨10, "x"⟩).erase ⟨11, "m"⟩)[n]? = none := by
    rw [← hflow]
    decide +kernel
  obtain ⟨first, hsome, hlist⟩ := Option.map_eq_some_iff.mp hfirst
  obtain ⟨second, hsome', hlist'⟩ := Option.map_eq_some_iff.mp hsecond
  rw [FlowGraph.partition?, Std.TreeMap.contains_eq_isSome_getElem?, hsome, Option.isSome_some,
    if_pos rfl, FlowGraph.collect_of_unread hsome, hlist, List.append_nil,
    FlowGraph.collect_of_unread hsome', hlist', List.singleton_append,
    FlowGraph.collect_of_all_read hleaves]
  rfl

/-- A selected sink can be lost: the walk meets another node of its time first. -/
theorem overtaken_sink_lost :
    ¬∀ (config : Config) (bindings : Bindings) (lines : List Fragment) (source sink : Node)
      (part : Subgraph) (recorded : Option Sink) (fallback : SinkSelection) (graph : GraphId),
      (FlowGraph.build config bindings lines).partition? source = some part →
        part.selectSink? recorded fallback = some sink →
        (∃ p, part.synthesize graph sink = .path p) ∨
          ∃ n, part.synthesize graph sink = .causalViolation n := by
  intro h
  have hsink : overtakenPart.selectSink? none .first = some ⟨12, "a"⟩ := by decide +kernel
  have hlost : overtakenPart.synthesize 1 ⟨12, "a"⟩ = .unreachable := by decide +kernel
  rcases h {} .empty overtaken _ _ _ none .first 1 partition_overtaken hsink with ⟨p, hp⟩ | ⟨n, hn⟩
  · exact absurd (hlost.symm.trans hp) (by simp)
  · exact absurd (hlost.symm.trans hn) (by simp)

end LeakTrace
