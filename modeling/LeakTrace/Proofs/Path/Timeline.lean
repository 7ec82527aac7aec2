import LeakTrace.Proofs.Path.Synthesis

namespace LeakTrace

open Relation

private theorem Node.time_le_of_compare_lt {a b : Node} (h : compare a b = .lt) :
    a.time ≤ b.time := by
  rw [Node.compare_eq, Ordering.then_eq_lt, Std.compare_eq_lt, Std.LawfulEqCmp.compare_eq_iff_eq] at h
  rcases h with h | ⟨h, -⟩
  · exact Int64.le_of_lt h
  · rw [h]
    exact Int64.le_refl _

namespace Walk.Visits

variable {g : Subgraph} {sink : Node} {unseen : Std.TreeSet Time} {met : List Node}

theorem source_mem (h : Visits g sink unseen met []) : g.source ∈ met := by
  have hstarts := h.starts
  rw [List.append_nil] at hstarts
  exact List.mem_of_head? hstarts

theorem eq_of_time_eq {a b : Node} (h : Visits g sink unseen met []) (ha : a ∈ met) (hb : b ∈ met)
    (htime : a.time = b.time) : a = b := by
  have hnodup := h.times_nodup
  rw [List.append_nil] at hnodup
  exact List.inj_on_of_nodup_map hnodup ha hb htime

theorem source_time_le {n : Node} (h : Visits g sink unseen met []) (hn : n ∈ met) :
    g.source.time ≤ n.time := h.not_older n (List.mem_append_left _ hn)

private theorem mem_of_mem_steps {n : Node} (hn : n ∈ (ofMet g met).steps) : n ∈ met :=
  (sees_ofMet.mp (mem_steps.mp hn)).1

/-- The steps stand in the order of nodes, and a tie in time would be one node twice. -/
theorem steps_increasing (h : Visits g sink unseen met []) :
    (ofMet g met).steps.Pairwise fun a b => a.time < b.time := by
  have hsorted : (ofMet g met).steps.Pairwise fun a b => compare a b = .lt :=
    Std.TreeSet.ordered_toList
  refine hsorted.imp_of_mem fun {a b} ha hb hlt => ?_
  have hne : a.time ≠ b.time := by
    intro htime
    obtain rfl : a = b := h.eq_of_time_eq (mem_of_mem_steps ha) (mem_of_mem_steps hb) htime
    have hself : compare a a = .eq := Std.ReflCmp.compare_self
    exact absurd (hself.symm.trans hlt) (by decide)
  exact Int64.lt_of_le_of_ne (Node.time_le_of_compare_lt hlt) hne

private theorem steps_distinct (h : Visits g sink unseen met []) :
    ((ofMet g met).steps.map Node.statement).Nodup := by
  rw [List.Nodup, List.pairwise_map]
  refine h.steps_increasing.imp_of_mem fun {a b} ha hb hlt hstatement => ?_
  obtain ⟨hmet, -⟩ := sees_ofMet.mp (mem_steps.mp ha)
  obtain ⟨-, hleast⟩ := sees_ofMet.mp (mem_steps.mp hb)
  exact Int64.not_lt.mpr (hleast a hmet hstatement) hlt

private theorem head?_steps (h : Visits g sink unseen met []) :
    (ofMet g met).steps.head? = some g.source := by
  -- nothing that was met is older than the source, so it is a step, and the first
  have hsource : g.source ∈ (ofMet g met).steps :=
    mem_steps.mpr (sees_ofMet.mpr ⟨h.source_mem, fun m hm _ => h.source_time_le hm⟩)
  have hincreasing := h.steps_increasing
  cases hsteps : (ofMet g met).steps with
  | nil => rw [hsteps] at hsource; exact absurd hsource List.not_mem_nil
  | cons first rest =>
    have hfirst : first ∈ met := mem_of_mem_steps (hsteps ▸ List.mem_cons_self)
    rw [hsteps] at hsource hincreasing
    rcases List.mem_cons.mp hsource with heq | hrest
    · rw [heq]
      rfl
    · have hlt := (List.pairwise_cons.mp hincreasing).1 g.source hrest
      exact absurd hlt (Int64.not_lt.mpr (h.source_time_le hfirst))

theorem exists_step {n : Node} (hn : n ∈ met) :
    ∃ m ∈ (ofMet g met).steps, m.statement = n.statement := by
  have hseen : (ofMet g met).firstSeen.contains n.statement = true :=
    contains_firstSeen_ofMet.mpr ⟨n, hn, rfl⟩
  rw [Std.TreeMap.contains_eq_isSome_getElem?, Option.isSome_iff_exists] at hseen
  obtain ⟨t, ht⟩ := hseen
  exact ⟨⟨t, n.statement⟩, mem_steps.mpr ht, rfl⟩

end Walk.Visits

/-- Where the statement occurs, the steps are cut right behind its first occurrence. -/
theorem cutAfter_of_mem {statement : String} {ns : List Node}
    (h : ∃ n ∈ ns, n.statement = statement) :
    ∃ before last after, ns = before ++ last :: after ∧ last.statement = statement ∧
      (∀ n ∈ before, n.statement ≠ statement) ∧ cutAfter statement ns = before ++ [last] := by
  induction ns with
  | nil => exact absurd h (by simp)
  | cons m ns ih =>
    by_cases hm : m.statement = statement
    · exact ⟨[], m, ns, rfl, hm, by simp, by rw [cutAfter, if_pos hm]; rfl⟩
    · have hrest : ∃ n ∈ ns, n.statement = statement := by simpa [hm] using h
      obtain ⟨before, last, after, rfl, hlast, hbefore, hcut⟩ := ih hrest
      refine ⟨m :: before, last, after, rfl, hlast, List.forall_mem_cons.mpr ⟨hm, hbefore⟩, ?_⟩
      rw [cutAfter, if_neg hm, hcut]
      rfl

namespace Subgraph

/-- The steps lead from the source of the subgraph to the sink's statement. -/
structure LeadsInOrder (g : Subgraph) (sink : Node) (steps : List Node) : Prop where
  starts : steps.head? = some g.source
  increasing : steps.Pairwise fun a b => a.time < b.time
  distinct : (steps.map Node.statement).Nodup
  ends : ∃ before last, steps = before ++ [last] ∧ last.statement = sink.statement ∧
    ∀ n ∈ before, n.statement ≠ sink.statement
  reached : ∀ n ∈ steps, ReflTransGen g.Edge g.source n

theorem leadsInOrder_pathOf {g : Subgraph} {graph : GraphId} {sink : Node}
    {unseen : Std.TreeSet Time} {met : List Node} (h : Walk.Visits g sink unseen met [])
    (hsink : ∃ n ∈ met, n.statement = sink.statement) :
    g.LeadsInOrder sink (g.pathOf graph sink met).steps := by
  obtain ⟨n, hn, hstatement⟩ := hsink
  obtain ⟨m, hm, hsame⟩ := Walk.Visits.exists_step (g := g) hn
  obtain ⟨before, last, after, hsteps, hlast, hbefore, hcut⟩ :=
    cutAfter_of_mem ⟨m, hm, hsame.trans hstatement⟩
  have hpath : (g.pathOf graph sink met).steps = before ++ [last] := hcut
  have hsplit : (Walk.ofMet g met).steps = before ++ [last] ++ after := by
    rw [hsteps, ← List.append_cons]
  have hkept : (before ++ [last]).Sublist (Walk.ofMet g met).steps := by
    rw [hsplit]
    exact List.sublist_append_left _ after
  rw [hpath]
  refine ⟨?_, h.steps_increasing.sublist hkept, h.steps_distinct.sublist (hkept.map _),
    ⟨before, last, rfl, hlast, hbefore⟩, ?_⟩
  · have hhead := h.head?_steps
    rw [hsplit, List.head?_append_of_ne_nil _ (by simp)] at hhead
    exact hhead
  · intro k hk
    have hmet : k ∈ met := Walk.Visits.mem_of_mem_steps (hkept.subset hk)
    exact reaches_of_leads (h.reached k (List.mem_append_left _ hmet))

/-- A synthesis ends for every subgraph, also one with cycles, and every sink. A path that it gives
leads from the source to the sink's statement in the order of time; a violation that it reports is a
node that was derived from the source and is older than it. -/
theorem synthesize_inOrder (g : Subgraph) (graph : GraphId) (sink : Node) :
    (∀ p, g.synthesize graph sink = .path p →
      p.source = g.source ∧ p.sink = sink ∧ g.LeadsInOrder sink p.steps) ∧
    ∀ n, g.synthesize graph sink = .causalViolation n →
      TransGen g.Edge g.source n ∧ n.time < g.source.time := by
  refine ⟨fun p hp => ?_, fun n hn => ?_⟩
  · obtain ⟨unseen, met, hvisits, hsink, rfl⟩ := visits_of_synthesize_path hp
    exact ⟨rfl, rfl, leadsInOrder_pathOf hvisits hsink⟩
  · obtain ⟨hreach, hold⟩ := leads_of_synthesize_causalViolation hn
    exact ⟨TransGen.mono (fun _ _ hstep => hstep.2) _ _ hreach, hold⟩

/-- A loop that runs through one statement twice and leads back to the source, and a node behind the
sink. -/
def looped : Subgraph where
  source := ⟨10, "x"⟩
  predecessors :=
    [(⟨10, "x"⟩, ⟨11, "l"⟩), (⟨11, "l"⟩, ⟨12, "m"⟩), (⟨12, "m"⟩, ⟨13, "l"⟩), (⟨13, "l"⟩, ⟨14, "y"⟩),
      (⟨13, "l"⟩, ⟨15, "z"⟩), (⟨13, "l"⟩, ⟨10, "x"⟩)].foldl
      (fun m (a, b) => FlowGraph.reverseEdges m a [b]) ∅

def loopedPath : LeakPath :=
  ⟨5, ⟨10, "x"⟩, ⟨14, "y"⟩, [⟨10, "x"⟩, ⟨11, "l"⟩, ⟨12, "m"⟩, ⟨14, "y"⟩], false⟩

/-- A node that was derived from a younger source. -/
def broken : Subgraph := ⟨⟨10, "x"⟩, FlowGraph.reverseEdges ∅ ⟨10, "x"⟩ [⟨5, "s"⟩, ⟨12, "y"⟩]⟩

theorem looped_inOrder :
    looped.synthesize 5 ⟨14, "y"⟩ = .path loopedPath ∧
      looped.LeadsInOrder ⟨14, "y"⟩ loopedPath.steps ∧
      broken.synthesize 5 ⟨12, "y"⟩ = .causalViolation ⟨5, "s"⟩ ∧
      TransGen broken.Edge broken.source ⟨5, "s"⟩ := by
  have hpath : looped.synthesize 5 ⟨14, "y"⟩ = .path loopedPath := by decide +kernel
  have hbroken : broken.synthesize 5 ⟨12, "y"⟩ = .causalViolation ⟨5, "s"⟩ := by decide +kernel
  obtain ⟨-, -, horder⟩ := (synthesize_inOrder looped 5 ⟨14, "y"⟩).1 loopedPath hpath
  obtain ⟨hreach, -⟩ := (synthesize_inOrder broken 5 ⟨12, "y"⟩).2 ⟨5, "s"⟩ hbroken
  exact ⟨hpath, horder, hbroken, hreach⟩

end Subgraph

end LeakTrace
