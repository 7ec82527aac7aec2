import LeakTrace.Proofs.Path.SelectedSink
import LeakTrace.Proofs.Path.Timeline
import Mathlib.Order.Bounds.Basic

namespace LeakTrace

open Relation

/-- The node is the earliest of the set with its statement. -/
def IsEarliest (V : Set Node) (n : Node) : Prop :=
  n ∈ V ∧ ∀ m ∈ V, m.statement = n.statement → n.time ≤ m.time

/-- The steps are the earliest nodes of the set for each statement, in ascending time, cut right
behind the one with the sink's statement. -/
def TracesTo (V : Set Node) (sink : Node) (steps : List Node) : Prop :=
  ∃ before last after, steps = before ++ [last] ∧ last.statement = sink.statement ∧
    (before ++ last :: after).Pairwise (fun a b => a.time < b.time) ∧
    ∀ n, n ∈ before ++ last :: after ↔ IsEarliest V n

theorem TracesTo.subset {V : Set Node} {steps : List Node} (h : TracesTo V sink steps) :
    ∀ n ∈ steps, n ∈ V := by
  obtain ⟨before, last, after, rfl, -, -, hall⟩ := h
  intro n hn
  rw [List.append_cons] at hall
  exact ((hall n).mp (List.mem_append_left after hn)).1

namespace Subgraph

/-- The set has the source and, beyond each of its nodes but the sink, the nodes derived directly. -/
structure Spans (g : Subgraph) (sink : Node) (V : Set Node) : Prop where
  source : g.source ∈ V
  next : ∀ a ∈ V, a ≠ sink → ∀ b ∈ g.forward.getD a [], b ∈ V

/-- The node was derived from several others. -/
def Merges (g : Subgraph) (n : Node) : Prop := 1 < (g.predecessors.getD n ∅).size

instance (g : Subgraph) (n : Node) : Decidable (g.Merges n) :=
  inferInstanceAs (Decidable (1 < (g.predecessors.getD n ∅).size))

theorem isLeast_spans (g : Subgraph) (sink : Node) :
    IsLeast {V | g.Spans sink V} {n | ReflTransGen (g.Leads sink) g.source n} := by
  constructor
  · refine ⟨.refl, fun a ha hne b hb => ?_⟩
    exact ReflTransGen.tail ha ⟨hne, mem_forward.mp hb⟩
  · intro V hV n hn
    induction hn with
    | refl => exact hV.source
    | tail _ hlead ih => exact hV.next _ ih hlead.1 _ (mem_forward.mpr hlead.2)

end Subgraph

namespace Walk

variable {g : Subgraph} {sink : Node} {unseen : Std.TreeSet Time} {met : List Node}

theorem divergent_ofMet : (ofMet g met).divergent = true ↔ ∃ n ∈ met, g.Merges n := by
  have hfold := foldl_iff (f := Walk.meet g) (Q := fun w => w.divergent = true) (R := g.Merges)
    (fun w n => by simp [Walk.meet, Subgraph.Merges]) met empty
  rw [ofMet, hfold]
  simp [empty]

theorem Visits.tracesTo_pathOf (h : Visits g sink unseen met []) (graph : GraphId)
    (hsink : ∃ n ∈ met, n.statement = sink.statement) :
    TracesTo {n | n ∈ met} sink (g.pathOf graph sink met).steps := by
  obtain ⟨n, hn, hstatement⟩ := hsink
  obtain ⟨m, hm, hsame⟩ := exists_step (g := g) hn
  obtain ⟨before, last, after, hsteps, hlast, -, hcut⟩ :=
    cutAfter_of_mem ⟨m, hm, hsame.trans hstatement⟩
  refine ⟨before, last, after, hcut, hlast, ?_, fun k => ?_⟩
  · rw [← hsteps]
    exact h.steps_increasing
  · rw [← hsteps, mem_steps, sees_ofMet]
    rfl

private theorem Visits.reached_eq_met (h : Visits g sink unseen met [])
    (htimes : ∀ n ∈ g.source :: g.predecessors.keys, g.HasOwnTime n) :
    {n | ReflTransGen (g.Leads sink) g.source n} = {n | n ∈ met} := by
  ext n
  refine ⟨fun hn => ?_, fun hn => h.reached n (List.mem_append_left _ hn)⟩
  refine h.mem_of_ownTimes (ReflTransGen.mono ?_ _ _ hn)
  intro a b hlead
  have hkey := Std.TreeMap.mem_keys.mpr (Subgraph.mem_predecessors_of_edge hlead.2)
  exact ⟨hlead, htimes b (List.mem_cons_of_mem g.source hkey)⟩

end Walk

namespace Subgraph

variable {g : Subgraph} {sink : Node} {V : Set Node}

private theorem synthesize_of_leaf (graph : GraphId) (h : g.forward.contains g.source = false) :
    g.synthesize graph sink = .unreachable := by
  simp only [synthesize, h, Bool.not_false, if_true]

/-- Where an edge leaves the source, the set decides between the three outcomes. -/
theorem outcome_of_span (graph : GraphId) (hfirst : g.forward.contains g.source = true)
    (htimes : ∀ n ∈ g.source :: g.predecessors.keys, g.HasOwnTime n)
    (hV : V = {n | ReflTransGen (g.Leads sink) g.source n}) :
    ((∃ n ∈ V, n.time < g.source.time) ∧ ∃ n, g.synthesize graph sink = .causalViolation n) ∨
    (¬∃ n ∈ V, n.time < g.source.time) ∧
      ((∃ n ∈ V, n.statement = sink.statement) ∧ (∃ p, g.synthesize graph sink = .path p) ∨
      (¬∃ n ∈ V, n.statement = sink.statement) ∧ g.synthesize graph sink = .unreachable) := by
  rcases g.synthesize_cases graph sink with ⟨hnone, -⟩ | ⟨n, hreach, hold, heq⟩ |
    ⟨unseen, met, hvisits, heq⟩
  · obtain ⟨b, hb⟩ := contains_forward.mp hfirst
    exact absurd hb (hnone b)
  · refine .inl ⟨⟨n, ?_, hold⟩, n, heq⟩
    rw [hV]
    exact hreach.to_reflTransGen
  · rw [hvisits.reached_eq_met htimes] at hV
    subst hV
    have hyoung : ¬∃ n ∈ {n | n ∈ met}, n.time < g.source.time := by
      rintro ⟨n, hn, hold⟩
      exact Int64.not_lt.mpr (hvisits.source_time_le hn) hold
    by_cases hsink : ∃ n ∈ met, n.statement = sink.statement
    · rw [if_pos hsink] at heq
      exact .inr ⟨hyoung, .inl ⟨hsink, _, heq⟩⟩
    · rw [if_neg hsink] at heq
      exact .inr ⟨hyoung, .inr ⟨hsink, heq⟩⟩

/-- Where no two nodes of a subgraph share a time, a synthesis is decided by the least set that spans
the way to the sink. Without an edge from the source it is unreachable. Otherwise there is a violation
exactly if a node of the set is older than the source, and it is such a node; without one there is a
path exactly if the set has the sink's statement. The path traces the set, and is divergent exactly if
a node of the set was derived from several others. -/
theorem synthesize_of_span (graph : GraphId)
    (htimes : ∀ n ∈ g.source :: g.predecessors.keys, g.HasOwnTime n)
    (hV : IsLeast {V | g.Spans sink V} V) :
    (g.forward.contains g.source = false → g.synthesize graph sink = .unreachable) ∧
      (g.forward.contains g.source = true →
        ((∃ n, g.synthesize graph sink = .causalViolation n) ↔ ∃ n ∈ V, n.time < g.source.time) ∧
        ((¬∃ n ∈ V, n.time < g.source.time) →
          ((∃ p, g.synthesize graph sink = .path p) ↔ ∃ n ∈ V, n.statement = sink.statement) ∧
          (g.synthesize graph sink = .unreachable ↔ ¬∃ n ∈ V, n.statement = sink.statement))) ∧
      (∀ n, g.synthesize graph sink = .causalViolation n → n ∈ V ∧ n.time < g.source.time) ∧
      ∀ p, g.synthesize graph sink = .path p →
        TracesTo V sink p.steps ∧ (p.divergent = true ↔ ∃ n ∈ V, g.Merges n) := by
  have hreached := hV.unique (g.isLeast_spans sink)
  refine ⟨synthesize_of_leaf graph, fun hfirst => ?_, fun n hn => ?_, fun p hp => ?_⟩
  · rcases outcome_of_span graph hfirst htimes hreached with
      ⟨hold, n, heq⟩ | ⟨hyoung, ⟨hsink, p, heq⟩ | ⟨hsink, heq⟩⟩
    · simp [heq, hold]
    · simp [heq, hyoung, hsink]
    · simp [heq, hyoung, hsink]
  · obtain ⟨hreach, hold⟩ := leads_of_synthesize_causalViolation hn
    rw [hreached]
    exact ⟨hreach.to_reflTransGen, hold⟩
  · obtain ⟨unseen, met, hvisits, hsink, rfl⟩ := visits_of_synthesize_path hp
    rw [hreached, hvisits.reached_eq_met htimes]
    exact ⟨hvisits.tracesTo_pathOf graph hsink, Walk.divergent_ofMet⟩

/-- Two flows that meet again at the sink. A statement is repeated, and what lies behind the sink
leads back to the source. -/
def braided : Subgraph where
  source := ⟨10, "x"⟩
  predecessors :=
    [(⟨10, "x"⟩, ⟨11, "a"⟩), (⟨10, "x"⟩, ⟨12, "b"⟩), (⟨12, "b"⟩, ⟨13, "a"⟩), (⟨11, "a"⟩, ⟨14, "y"⟩),
      (⟨12, "b"⟩, ⟨14, "y"⟩), (⟨14, "y"⟩, ⟨15, "z"⟩), (⟨15, "z"⟩, ⟨10, "x"⟩)].foldl
      (fun m (a, b) => FlowGraph.reverseEdges m a [b]) ∅

def braidedSpan : List Node := [⟨10, "x"⟩, ⟨11, "a"⟩, ⟨12, "b"⟩, ⟨13, "a"⟩, ⟨14, "y"⟩]

theorem isLeast_braidedSpan :
    IsLeast {V | braided.Spans ⟨14, "y"⟩ V} {n | n ∈ braidedSpan} := by
  have hnext : ∀ a ∈ braidedSpan, a ≠ ⟨14, "y"⟩ → ∀ b ∈ braided.forward.getD a [], b ∈ braidedSpan := by
    decide +kernel
  refine ⟨⟨List.mem_cons_self, hnext⟩, fun V hV => ?_⟩
  have hx : ⟨10, "x"⟩ ∈ V := hV.source
  have ha : ⟨11, "a"⟩ ∈ V := hV.next _ hx (by decide) _ (by decide +kernel)
  have hb : ⟨12, "b"⟩ ∈ V := hV.next _ hx (by decide) _ (by decide +kernel)
  have ha' : ⟨13, "a"⟩ ∈ V := hV.next _ hb (by decide) _ (by decide +kernel)
  have hy : ⟨14, "y"⟩ ∈ V := hV.next _ ha (by decide) _ (by decide +kernel)
  have hall : ∀ n ∈ braidedSpan, n ∈ V := by simp [braidedSpan, hx, ha, hb, ha', hy]
  exact hall

/-- The path to `y` is found, and it is divergent; the later `a` and what lies behind `y` are not part
of it. -/
theorem braided_path :
    (∀ n ∈ braided.source :: braided.predecessors.keys, braided.HasOwnTime n) ∧
      ∃ p, braided.synthesize 5 ⟨14, "y"⟩ = .path p ∧
        TracesTo {n | n ∈ braidedSpan} ⟨14, "y"⟩ p.steps ∧ p.divergent = true := by
  have htimes : ∀ n ∈ braided.source :: braided.predecessors.keys, braided.HasOwnTime n := by
    decide +kernel
  have hfirst : braided.forward.contains braided.source = true := by decide +kernel
  have hyoung : ∀ n ∈ braidedSpan, ¬n.time < braided.source.time := by decide +kernel
  obtain ⟨-, houtcome, -, hpath⟩ := synthesize_of_span 5 htimes isLeast_braidedSpan
  have hfound := ((houtcome hfirst).2 fun ⟨n, hn, hold⟩ => hyoung n hn hold).1
  obtain ⟨p, hp⟩ := hfound.mpr ⟨⟨14, "y"⟩, by decide, rfl⟩
  obtain ⟨htrace, hdivergent⟩ := hpath p hp
  exact ⟨htimes, p, hp, htrace, hdivergent.mpr ⟨⟨14, "y"⟩, by decide, by decide +kernel⟩⟩

end Subgraph

end LeakTrace
