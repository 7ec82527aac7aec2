import LeakTrace.Proofs.Path.Span

namespace LeakTrace

open Relation

namespace Subgraph

/-- What a walk to the sink can have met when it ends: the source, nodes that it was led to, and at the
time of each node that follows one of them a single node, be it this one or another. -/
structure Meets (g : Subgraph) (sink : Node) (V : Set Node) : Prop where
  source : g.source ∈ V
  reached : ∀ n ∈ V, ReflTransGen (g.Leads sink) g.source n
  followed : ∀ a ∈ V, ∀ b, g.Leads sink a b → ∃ c ∈ V, c.time = b.time
  single : ∀ a ∈ V, ∀ b ∈ V, a.time = b.time → a = b

variable {g : Subgraph} {graph : GraphId} {sink : Node} {p : LeakPath}

private theorem meets_of_visits {unseen : Std.TreeSet Time} {met : List Node}
    (h : Walk.Visits g sink unseen met []) : g.Meets sink {n | n ∈ met} where
  source := h.source_mem
  reached := fun n hn => h.reached n (List.mem_append_left _ hn)
  followed := fun _ ha _ hlead => h.exists_met_of_leads ha hlead
  single := fun _ ha _ hb htime => h.eq_of_time_eq ha hb htime

/-- The flag of a path is set exactly if one of the nodes that the walk met, whose trace the path is,
was derived from several others. That is so if a step was; and if no other node that the walk can be
led to was, it is so only then. -/
theorem divergent_of_synthesize (hp : g.synthesize graph sink = .path p) :
    (∃ V, g.Meets sink V ∧ TracesTo V sink p.steps ∧
        (p.divergent = true ↔ ∃ n ∈ V, g.Merges n)) ∧
      ((∃ n ∈ p.steps, g.Merges n) → p.divergent = true) ∧
      ((∀ n, ReflTransGen (g.Leads sink) g.source n → g.Merges n → n ∈ p.steps) →
        (p.divergent = true ↔ ∃ n ∈ p.steps, g.Merges n)) := by
  obtain ⟨unseen, met, hvisits, hsink, rfl⟩ := visits_of_synthesize_path hp
  have hmeets := meets_of_visits hvisits
  have htrace := hvisits.tracesTo_pathOf graph hsink
  have hflag : (g.pathOf graph sink met).divergent = true ↔ ∃ n ∈ {n | n ∈ met}, g.Merges n :=
    Walk.divergent_ofMet
  have hstep : (∃ n ∈ (g.pathOf graph sink met).steps, g.Merges n) →
      (g.pathOf graph sink met).divergent = true := by
    rintro ⟨n, hn, hmerges⟩
    exact hflag.mpr ⟨n, htrace.subset n hn, hmerges⟩
  refine ⟨⟨_, hmeets, htrace, hflag⟩, hstep, fun honly => ⟨fun hset => ?_, hstep⟩⟩
  obtain ⟨n, hn, hmerges⟩ := hflag.mp hset
  exact ⟨n, honly n (hmeets.reached n hn) hmerges, hmerges⟩

def braidedPath : LeakPath :=
  ⟨5, ⟨10, "x"⟩, ⟨14, "y"⟩, [⟨10, "x"⟩, ⟨11, "a"⟩, ⟨12, "b"⟩, ⟨14, "y"⟩], true⟩

/-- The two flows meet at a step of the path, the sink, and nowhere else. -/
theorem braidedPath_divergent :
    braided.synthesize 5 ⟨14, "y"⟩ = .path braidedPath ∧
      (∀ n, ReflTransGen (braided.Leads ⟨14, "y"⟩) braided.source n → braided.Merges n →
        n ∈ braidedPath.steps) ∧
      (∃ n ∈ braidedPath.steps, braided.Merges n) ∧ braidedPath.divergent = true := by
  have hp : braided.synthesize 5 ⟨14, "y"⟩ = .path braidedPath := by decide +kernel
  have hreached := (braided.isLeast_spans ⟨14, "y"⟩).unique isLeast_braidedSpan
  have hspan : ∀ n ∈ braidedSpan, braided.Merges n → n ∈ braidedPath.steps := by decide +kernel
  have honly : ∀ n, ReflTransGen (braided.Leads ⟨14, "y"⟩) braided.source n → braided.Merges n →
      n ∈ braidedPath.steps := by
    intro n hn
    exact hspan n (hreached.subset hn)
  have hstep : ∃ n ∈ braidedPath.steps, braided.Merges n :=
    ⟨⟨14, "y"⟩, by decide, by decide +kernel⟩
  obtain ⟨-, -, hiff⟩ := divergent_of_synthesize hp
  exact ⟨hp, honly, hstep, (hiff honly).mpr hstep⟩

/-- A sink that was derived from the source directly, and two flows that meet later and elsewhere. -/
def sideMerge : Subgraph where
  source := ⟨10, "x"⟩
  predecessors :=
    [(⟨10, "x"⟩, ⟨11, "y"⟩), (⟨10, "x"⟩, ⟨12, "a"⟩), (⟨10, "x"⟩, ⟨13, "b"⟩), (⟨12, "a"⟩, ⟨14, "z"⟩),
      (⟨13, "b"⟩, ⟨14, "z"⟩)].foldl (fun m (a, b) => FlowGraph.reverseEdges m a [b]) ∅

/-- A path can be divergent without a step that was derived from several nodes. -/
theorem sideMerge_divergent :
    ¬∀ (g : Subgraph) (graph : GraphId) (sink : Node) (p : LeakPath),
      g.synthesize graph sink = .path p →
        (p.divergent = true ↔ ∃ n ∈ p.steps, g.Merges n) := by
  intro h
  have hp : sideMerge.synthesize 5 ⟨11, "y"⟩ =
      .path ⟨5, ⟨10, "x"⟩, ⟨11, "y"⟩, [⟨10, "x"⟩, ⟨11, "y"⟩], true⟩ := by decide +kernel
  obtain ⟨n, hn, hmerges⟩ := (h sideMerge 5 ⟨11, "y"⟩ _ hp).mp rfl
  have hnone : ∀ n ∈ [(⟨10, "x"⟩ : Node), ⟨11, "y"⟩], ¬sideMerge.Merges n := by decide +kernel
  exact hnone n hn hmerges

end Subgraph

end LeakTrace
