import LeakTrace.Proofs.Graph.Counters

namespace LeakTrace

namespace Splicer

variable {graphs : GraphSet} {s : Splicer} {boundaries order : List GraphId} {g : GraphId}
  {lines : List Fragment}

/-- The graphs of the order that are done, in the order in which they come first. -/
def moved (s : Splicer) (order : List GraphId) : List GraphId :=
  (order.filter fun g => (s.result? g).isSome).eraseDups

/-- The splicer without one of the spliced graphs, and with other counters. -/
def release (s : Splicer) (g : GraphId) (counts : SpliceCounts) : Splicer :=
  { s with done := s.done.erase g, counts := counts }

private theorem result?_release (s : Splicer) (g a : GraphId) (counts : SpliceCounts) :
    (s.release g counts).result? a = if g = a then none else s.result? a := by
  simp [release, result?, Std.TreeMap.getElem?_erase]

private theorem moved_cons_of_none (h : s.result? g = none) (order : List GraphId) :
    s.moved (g :: order) = s.moved order := by
  simp [moved, h]

private theorem moved_cons_of_some (h : s.result? g = some lines) (order : List GraphId)
    (counts : SpliceCounts) :
    s.moved (g :: order) = g :: (s.release g counts).moved order := by
  have hfilter : (order.filter fun a => (s.result? a).isSome).filter (fun a => !a == g) =
      order.filter fun a => ((s.release g counts).result? a).isSome := by
    rw [List.filter_filter]
    refine congrArg (order.filter ·) (funext fun a => ?_)
    rw [result?_release]
    by_cases ha : g = a
    · simp [ha]
    · simp [ha, Ne.symm ha]
  have hcons : (g :: order).filter (fun a => (s.result? a).isSome) =
      g :: order.filter fun a => (s.result? a).isSome := by
    simp [h]
  rw [moved, hcons, List.eraseDups_cons, hfilter, moved]

theorem collect_of_none (h : s.result? g = none) :
    collect boundaries (s, graphs) g = (s, graphs) := by
  rw [collect, h]

theorem collect_of_boundary (h : s.result? g = some lines) (hg : g ∈ boundaries) :
    collect boundaries (s, graphs) g =
      (s.release g { s.counts with removed := s.counts.removed + 1 }, graphs) := by
  rw [collect, h]
  exact if_pos hg

theorem collect_of_topLevel (h : s.result? g = some lines) (hg : g ∉ boundaries) :
    collect boundaries (s, graphs) g = (s.release g s.counts, graphs.insert g lines) := by
  rw [collect, h]
  exact if_neg hg

/-- What collecting the graphs of an order comes to. -/
structure Collected (boundaries order : List GraphId) (s : Splicer) (graphs : GraphSet)
    (out : Splicer × GraphSet) : Prop where
  ids : out.2.ids = graphs.ids ++ (s.moved order).filter (· ∉ boundaries)
  get? : ∀ g, out.2.get? g =
    (if g ∈ order ∧ g ∉ boundaries then s.result? g else none).or (graphs.get? g)
  removed : out.1.counts.removed =
    s.counts.removed + ((s.moved order).filter (· ∈ boundaries)).length

namespace Collected

variable {out : Splicer × GraphSet}

/-- A graph that is not done, or not any more, is passed over. -/
theorem skip (hg : s.result? g = none) (h : Collected boundaries order s graphs out) :
    Collected boundaries (g :: order) s graphs out where
  ids := by rw [moved_cons_of_none hg, h.ids]
  get? := by
    intro a
    rw [h.get?]
    by_cases ha : a = g
    · simp [ha, hg]
    · simp [ha]
  removed := by rw [moved_cons_of_none hg, h.removed]

theorem boundary (hg : s.result? g = some lines) (hin : g ∈ boundaries)
    (h : Collected boundaries order
      (s.release g { s.counts with removed := s.counts.removed + 1 }) graphs out) :
    Collected boundaries (g :: order) s graphs out where
  ids := by rw [h.ids, moved_cons_of_some hg, List.filter_cons_of_neg (by simpa using hin)]
  get? := by
    intro a
    rw [h.get?, result?_release]
    by_cases ha : g = a
    · simp [← ha, hin]
    · simp [ha, Ne.symm ha]
  removed := by
    have hmoved := moved_cons_of_some hg order { s.counts with removed := s.counts.removed + 1 }
    have hcount : (s.release g { s.counts with removed := s.counts.removed + 1 }).counts.removed =
        s.counts.removed + 1 := rfl
    rw [h.removed, hcount, hmoved, List.filter_cons_of_pos (by simpa using hin), List.length_cons]
    omega

private theorem topLevel (hg : s.result? g = some lines) (hout : g ∉ boundaries)
    (hnew : g ∉ graphs.ids)
    (h : Collected boundaries order (s.release g s.counts) (graphs.insert g lines) out) :
    Collected boundaries (g :: order) s graphs out where
  ids := by
    rw [h.ids, GraphSet.ids_insert, if_neg hnew, moved_cons_of_some hg,
      List.filter_cons_of_pos (by simpa using hout), List.append_assoc, List.singleton_append]
  get? := by
    intro a
    rw [h.get?, result?_release, GraphSet.get?_insert]
    by_cases ha : g = a
    · simp [← ha, hout, hg]
    · simp [ha, Ne.symm ha]
  removed := by
    rw [h.removed, moved_cons_of_some hg, List.filter_cons_of_neg (by simpa using hout)]
    rfl

end Collected

private theorem ne_of_isSome_release {a : GraphId} {counts : SpliceCounts}
    (h : ((s.release g counts).result? a).isSome = true) :
    g ≠ a ∧ (s.result? a).isSome = true := by
  rw [result?_release] at h
  split at h
  · exact absurd h (by simp)
  · next hne => exact ⟨hne, h⟩

private theorem collected_foldl (boundaries order : List GraphId) (s : Splicer) (graphs : GraphSet)
    (hnew : ∀ g, (s.result? g).isSome = true → g ∉ graphs.ids) :
    Collected boundaries order s graphs (order.foldl (collect boundaries) (s, graphs)) := by
  induction order generalizing s graphs with
  | nil => exact ⟨by simp [moved], by simp, by simp [moved]⟩
  | cons g order ih =>
    rw [List.foldl_cons]
    cases hr : s.result? g with
    | none =>
      rw [collect_of_none hr]
      exact (ih s graphs hnew).skip hr
    | some lines =>
      by_cases hg : g ∈ boundaries
      · rw [collect_of_boundary hr hg]
        exact (ih _ graphs fun a ha => hnew a (ne_of_isSome_release ha).2).boundary hr hg
      · rw [collect_of_topLevel hr hg]
        refine (ih _ _ fun a ha hin => ?_).topLevel hr hg (hnew g (by simp [hr]))
        obtain ⟨hne, hdone⟩ := ne_of_isSome_release ha
        rcases GraphSet.mem_ids_insert.mp hin with hin | heq
        · exact hnew a hdone hin
        · exact hne heq.symm

/-- All graphs are spliced first; then those of the order are moved to the result. -/
theorem collected_spliceAll (s : Splicer) (order boundaries : List GraphId) :
    ∃ out, s.spliceAll order boundaries = (out.2, out.1.counts) ∧
      Collected boundaries order (order.foldl splice s) .empty out :=
  ⟨_, rfl, collected_foldl boundaries order _ .empty fun _ _ => List.not_mem_nil⟩

/-- A graph of the result holds what was spliced for it. -/
theorem get?_spliceAll (s : Splicer) (order boundaries : List GraphId) (g : GraphId) :
    (s.spliceAll order boundaries).1.get? g =
      if g ∈ order ∧ g ∉ boundaries then (order.foldl splice s).result? g else none := by
  obtain ⟨out, hout, hcollected⟩ := collected_spliceAll s order boundaries
  have hempty : GraphSet.empty.get? g = none := rfl
  rw [hout, hcollected.get?, hempty, Option.or_none]

end Splicer

/-- Splicing all graphs keeps those of the order that were dumped and do not stand beyond a
boundary, each once and in the order in which they come first, and counts those that do. A graph is
kept with the lines that every call for it gives, whether it is one of the calls before or one for
the order. -/
theorem spliceAll_topLevel (graphs : GraphSet) (history order boundaries : List GraphId) :
    let dumped := (order.filter graphs.contains).eraseDups
    let out := (history.foldl Splicer.splice (.ofGraphs graphs)).spliceAll order boundaries
    out.1.ids = dumped.filter (· ∉ boundaries) ∧
      (∀ before g after, history ++ order = before ++ g :: after → g ∈ out.1.ids →
        out.1.get? g =
          ((before.foldl Splicer.splice (.ofGraphs graphs)).splice g).result? g) ∧
      out.2.removed = (dumped.filter (· ∈ boundaries)).length := by
  intro dumped out
  let calls := history ++ order
  let s := calls.foldl Splicer.splice (.ofGraphs graphs)
  have hdivided := Splicer.divided_ofGraphs graphs
  obtain ⟨built, hvisits⟩ := Splicer.Visits.calls (.ofGraphs graphs) calls
  have hs : order.foldl Splicer.splice (history.foldl Splicer.splice (.ofGraphs graphs)) = s :=
    List.foldl_append.symm
  obtain ⟨state, hout, hcollected⟩ := Splicer.collected_spliceAll
    (history.foldl Splicer.splice (.ofGraphs graphs)) order boundaries
  rw [hs] at hcollected
  have hmoved : s.moved order = dumped := by
    refine congrArg List.eraseDups (List.filter_congr fun g hg => Bool.eq_iff_iff.mpr ?_)
    refine ⟨fun hdone => ?_, hvisits.isSome_called hdivided (List.mem_append_right history hg)⟩
    obtain ⟨lines, hlines⟩ := Option.isSome_iff_exists.mp hdone
    exact (hvisits.divided hdivided).dumped g lines hlines
  have hids : out.1.ids = dumped.filter (· ∉ boundaries) := by
    rw [← hmoved]
    exact (congrArg (·.1.ids) hout).trans hcollected.ids
  have hremoved : s.counts.removed = 0 := (hvisits.builds_called hdivided).removed
  refine ⟨hids, fun before g after hcalls hg => ?_, ?_⟩
  · rw [hids, List.mem_filter, List.mem_eraseDups, List.mem_filter, decide_eq_true_iff] at hg
    obtain ⟨⟨hin, hdumped⟩, htop⟩ := hg
    rw [Splicer.get?_spliceAll, if_pos ⟨hin, htop⟩, ← hdivided.result?_call before after hdumped,
      ← hcalls, List.foldl_append]
  · rw [← hmoved, ← Nat.zero_add (List.length _), ← hremoved]
    exact (congrArg (·.2.removed) hout).trans hcollected.removed

end LeakTrace
