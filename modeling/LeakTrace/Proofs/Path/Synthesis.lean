import LeakTrace.Proofs.Path.Walk

namespace LeakTrace

open Relation

theorem Walk.mem_steps {w : Walk} {n : Node} : n ∈ w.steps ↔ w.Sees n := by
  rw [steps, Std.TreeSet.mem_toList, Std.TreeSet.mem_ofList, List.contains_iff_mem, List.mem_map, Sees]
  constructor
  · rintro ⟨⟨s, t⟩, hentry, rfl⟩
    exact Std.TreeMap.mem_toList_iff_getElem?_eq_some.mp hentry
  · intro h
    exact ⟨(n.statement, n.time), Std.TreeMap.mem_toList_iff_getElem?_eq_some.mpr h, rfl⟩

private theorem mem_of_mem_cutAfter {statement : String} {n : Node} {ns : List Node}
    (h : n ∈ cutAfter statement ns) : n ∈ ns := by
  induction ns with
  | nil => exact absurd h List.not_mem_nil
  | cons m ns ih =>
    rw [cutAfter] at h
    split at h
    · rw [List.mem_singleton.mp h]
      exact List.mem_cons_self
    · rcases List.mem_cons.mp h with rfl | h
      · exact List.mem_cons_self
      · exact List.mem_cons_of_mem m (ih h)

namespace Subgraph

theorem mem_terminals_of_selectSink? {g : Subgraph} {recorded : Option Sink}
    {fallback : SinkSelection} {n : Node} (h : g.selectSink? recorded fallback = some n) :
    n ∈ g.terminals := by
  simp only [selectSink?] at h
  rcases Option.or_eq_some_iff.mp h with h | ⟨-, h⟩
  · obtain ⟨s, -, hs⟩ := Option.bind_eq_some_iff.mp h
    exact List.mem_of_find?_eq_some hs
  · cases fallback with
    | first => exact List.mem_of_head? h
    | last => exact List.mem_of_getLast? h

/-- The path that is read off a walk that met the nodes. -/
def pathOf (g : Subgraph) (graph : GraphId) (sink : Node) (met : List Node) : LeakPath :=
  let w := Walk.ofMet g met
  ⟨graph, g.source, sink, cutAfter sink.statement w.steps, w.divergent⟩

/-- What a synthesis comes to: nothing was derived from the source, or the walk was broken off, or it
met all that it queued, and then the sink's statement decides. -/
theorem synthesize_cases (g : Subgraph) (graph : GraphId) (sink : Node) :
    ((∀ b, ¬g.Edge g.source b) ∧ g.synthesize graph sink = .unreachable) ∨
    (∃ n, TransGen (g.Leads sink) g.source n ∧ n.time < g.source.time ∧
      g.synthesize graph sink = .causalViolation n) ∨
    ∃ unseen met, Walk.Visits g sink unseen met [] ∧ g.synthesize graph sink =
      if ∃ n ∈ met, n.statement = sink.statement then .path (g.pathOf graph sink met)
      else .unreachable := by
  simp only [synthesize]
  split
  · next hnone =>
    refine .inl ⟨fun b hb => ?_, rfl⟩
    rw [Bool.not_eq_true', ← Bool.not_eq_true, contains_forward] at hnone
    exact hnone ⟨b, hb⟩
  · split
    · next n hrun =>
      obtain ⟨hreach, hold⟩ := (Walk.Visits.start g sink).run_error hrun
      exact .inr (.inl ⟨n, hreach, hold, rfl⟩)
    · next w hrun =>
      obtain ⟨unseen, met, rfl, hvisits⟩ := (Walk.Visits.start g sink).run_ok rfl hrun
      refine .inr (.inr ⟨unseen, met, hvisits, ?_⟩)
      simp only [Walk.contains_firstSeen_ofMet, pathOf]

theorem visits_of_synthesize_path {g : Subgraph} {graph : GraphId} {sink : Node} {p : LeakPath}
    (h : g.synthesize graph sink = .path p) :
    ∃ unseen met, Walk.Visits g sink unseen met [] ∧ (∃ n ∈ met, n.statement = sink.statement) ∧
      p = g.pathOf graph sink met := by
  rcases g.synthesize_cases graph sink with ⟨-, heq⟩ | ⟨n, -, -, heq⟩ | ⟨unseen, met, hvisits, heq⟩
  · exact absurd (h.symm.trans heq) (by simp)
  · exact absurd (h.symm.trans heq) (by simp)
  · rw [h] at heq
    split at heq
    · next hsink => exact ⟨unseen, met, hvisits, hsink, Synthesis.path.inj heq⟩
    · exact absurd heq (by simp)

theorem leads_of_synthesize_causalViolation {g : Subgraph} {graph : GraphId} {sink n : Node}
    (h : g.synthesize graph sink = .causalViolation n) :
    TransGen (g.Leads sink) g.source n ∧ n.time < g.source.time := by
  rcases g.synthesize_cases graph sink with ⟨-, heq⟩ | ⟨m, hreach, hold, heq⟩ | ⟨unseen, met, -, heq⟩
  · exact absurd (h.symm.trans heq) (by simp)
  · obtain rfl : n = m := Synthesis.causalViolation.inj (h.symm.trans heq)
    exact ⟨hreach, hold⟩
  · rw [h] at heq
    split at heq
    · exact absurd heq (by simp)
    · exact absurd heq (by simp)

/-- A synthesized path is one from the source to the sink, and its steps are reachable. -/
theorem synthesize_path {g : Subgraph} {graph : GraphId} {sink : Node} {p : LeakPath}
    (h : g.synthesize graph sink = .path p) :
    p.graph = graph ∧ p.source = g.source ∧ p.sink = sink ∧
      ∀ n ∈ p.steps, ReflTransGen g.Edge g.source n := by
  obtain ⟨unseen, met, hvisits, -, rfl⟩ := visits_of_synthesize_path h
  refine ⟨rfl, rfl, rfl, fun n hn => ?_⟩
  have hmet : n ∈ met := (Walk.sees_ofMet.mp (Walk.mem_steps.mp (mem_of_mem_cutAfter hn))).1
  exact reaches_of_leads (hvisits.reached n (by simpa using hmet))

end Subgraph

end LeakTrace
