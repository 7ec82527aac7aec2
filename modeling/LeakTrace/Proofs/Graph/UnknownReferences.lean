import LeakTrace.Proofs.Graph.Counters

namespace LeakTrace

open Relation

namespace GraphSet

/-- The references in the raw list of a graph, in order. -/
def references (graphs : GraphSet) (g : GraphId) : List GraphId :=
  boundaryReferences ((graphs.get? g).getD [])

/-- How often a graph names graphs that were never dumped. -/
def undumpedCount (graphs : GraphSet) (g : GraphId) : Nat :=
  (graphs.references g).countP fun t => !graphs.contains t

end GraphSet

namespace Splicer

/-- How often a graph names one of the given graphs that was spliced to nothing. -/
def hollowCount (s : Splicer) (graphs : GraphSet) (before : List GraphId) (g : GraphId) : Nat :=
  (graphs.references g).countP fun t => t ∈ before ∧ s.result? t = some []

variable {graphs : GraphSet} {s s' : Splicer} {g : GraphId} {lines : List Fragment}
  {calls built : List GraphId}

private theorem unknown_tally (hs : Divided graphs s) (counts : SpliceCounts) (t : GraphId) :
    (s.tally counts t).unknown = counts.unknown + (if (!graphs.contains t) = true then 1 else 0) +
      if s.result? t = some [] then 1 else 0 := by
  have hraw : s.raw.contains t = ((s.result? t).isNone && graphs.contains t) := by
    rw [GraphSet.contains, hs.raw_get?]
    cases s.result? t with
    | none => rfl
    | some lines => rfl
  unfold tally inline
  cases hdone : s.result? t with
  | none =>
    rw [hraw, hdone]
    cases graphs.contains t with
    | true => simp
    | false => simp
  | some lines =>
    have hdumped : graphs.contains t = true := hs.dumped t lines hdone
    rw [hraw, hdone, hdumped]
    cases lines with
    | nil => simp
    | cons first rest => simp

private theorem unknown_foldl_tally (hs : Divided graphs s) (counts : SpliceCounts)
    (l : List GraphId) :
    (l.foldl s.tally counts).unknown = counts.unknown + l.countP (fun t => !graphs.contains t) +
      l.countP fun t => s.result? t = some [] := by
  induction l generalizing counts with
  | nil => rfl
  | cons t l ih =>
    rw [List.foldl_cons, ih, unknown_tally hs, List.countP_cons, List.countP_cons]
    simp only [decide_eq_true_eq]
    omega

private theorem hollowCount_build (hg : g ∉ built) {before : List GraphId}
    (hbefore : before ⊆ built)
    (a : GraphId) : (s.build g lines).hollowCount graphs before a = s.hollowCount graphs before a := by
  refine List.countP_congr fun t _ => ?_
  have hsame : t ∈ before → (s.build g lines).result? t = s.result? t := by
    intro ht
    have hne : g ≠ t := fun heq => hg (heq ▸ hbefore ht)
    rw [result?_build, if_neg hne]
  simp only [decide_eq_true_eq]
  constructor
  · rintro ⟨ht, hnil⟩
    exact ⟨ht, hsame ht ▸ hnil⟩
  · rintro ⟨ht, hnil⟩
    exact ⟨ht, (hsame ht).trans hnil⟩

namespace Builds

private theorem mem_of_isSome (h : Builds graphs calls (ofGraphs graphs) built s)
    (hdone : (s.result? g).isSome = true) : g ∈ built := by
  induction h with
  | nil => simp [ofGraphs, result?] at hdone
  | concat _ _ ih =>
    rw [result?_build] at hdone
    split at hdone
    · next heq => simp [heq]
    · exact List.mem_append_left _ (ih hdone)

/-- The counter of unknown references, by what each built graph names. -/
theorem unknown (h : Builds graphs calls (ofGraphs graphs) built s) :
    s.counts.unknown = (built.map graphs.undumpedCount).sum +
      (built.map fun g => s.hollowCount graphs (built.takeWhile (· ≠ g)) g).sum := by
  induction h with
  | nil => rfl
  | @concat built s g lines hbuilds hready ih =>
    have hs := hbuilds.divided (divided_ofGraphs graphs)
    have hnew : g ∉ built := by
      intro hmem
      have hdone := hbuilds.isSome_of_mem g hmem
      rw [hready.waits] at hdone
      exact absurd hdone (by simp)
    have hlines : boundaryReferences lines = graphs.references g := by
      rw [GraphSet.references, hready.lines_eq, Option.getD_some]
    have hearlier : (built.map fun a => (s.build g lines).hollowCount graphs
          ((built ++ [g]).takeWhile (· ≠ a)) a) =
        built.map fun a => s.hollowCount graphs (built.takeWhile (· ≠ a)) a := by
      refine List.map_congr_left fun a ha => ?_
      have hstop : (built ++ [g]).takeWhile (· ≠ a) = built.takeWhile (· ≠ a) := by
        obtain ⟨front, back, rfl⟩ := List.append_of_mem ha
        simp [List.takeWhile_append]
      rw [hstop]
      exact hollowCount_build hnew (List.takeWhile_subset _) a
    have hhere : (s.build g lines).hollowCount graphs ((built ++ [g]).takeWhile (· ≠ g)) g =
        (graphs.references g).countP fun t => s.result? t = some [] := by
      have hall : (built ++ [g]).takeWhile (· ≠ g) = built := by
        have hne : ∀ a ∈ built, decide (a ≠ g) = true := fun a ha =>
          decide_eq_true fun heq => hnew (heq ▸ ha)
        rw [List.takeWhile_append_of_pos hne, List.takeWhile_cons_of_neg (by simp),
          List.append_nil]
      rw [hall, hollowCount_build hnew (List.Subset.refl built)]
      refine List.countP_congr fun t _ => ?_
      simp only [decide_eq_true_eq, and_iff_right_iff_imp]
      intro hnil
      exact hbuilds.mem_of_isSome (by rw [hnil]; rfl)
    rw [counts_build, unknown_foldl_tally hs, ih, hlines, List.map_append, List.map_append,
      List.sum_append, List.sum_append, hearlier, List.map_singleton, List.map_singleton, hhere,
      List.sum_singleton, List.sum_singleton, GraphSet.undumpedCount]
    omega

end Builds

end Splicer

/-- Each reference of a graph that is built counts as unknown if the graph that it names was never
dumped, or was spliced to nothing before, and otherwise does not. So if no graph is spliced to
nothing, the counter is the number of references to graphs that were never dumped. -/
theorem unknown_references_counted (graphs : GraphSet) (calls : List GraphId) :
    let s := calls.foldl Splicer.splice (.ofGraphs graphs)
    ∃ built : List GraphId, Splicer.WorkedOff (.ofGraphs graphs) calls built s ∧ built.Nodup ∧
      (∀ g, g ∈ built ↔
        graphs.contains g = true ∧ ∃ c ∈ calls, ReflTransGen graphs.Refers c g) ∧
      s.counts.unknown = (built.map graphs.undumpedCount).sum +
        (built.map fun g => s.hollowCount graphs (built.takeWhile (· ≠ g)) g).sum ∧
      ((∀ g ∈ built, s.result? g ≠ some []) →
        s.counts.unknown = (built.map graphs.undumpedCount).sum) := by
  intro s
  obtain ⟨built, hvisits⟩ := Splicer.Visits.calls (.ofGraphs graphs) calls
  have hworked := hvisits.workedOff graphs.nodup fun _ => GraphSet.mem_ids_of_get?_ne_none
  have hbuilds := hvisits.builds_called (Splicer.divided_ofGraphs graphs)
  refine ⟨built, hworked, hbuilds.nodup, fun _ => hvisits.mem_built_iff, hbuilds.unknown,
    fun hsolid => ?_⟩
  have hnone : ∀ g ∈ built, s.hollowCount graphs (built.takeWhile (· ≠ g)) g = 0 := by
    intro g _
    rw [Splicer.hollowCount, List.countP_eq_zero]
    intro t _ hhollow
    obtain ⟨hbefore, hnil⟩ := of_decide_eq_true hhollow
    exact hsolid t (List.takeWhile_subset _ hbefore) hnil
  have hunknown := hbuilds.unknown
  rw [List.map_congr_left hnone] at hunknown
  simpa using hunknown

/-- A graph that names one that was dumped and holds nothing but a reference to one that was not. -/
def hollowNesting : GraphSet where
  entries := [(1, [⟨⟨50, "x"⟩, ⟨49, "7(-2)"⟩, none⟩, ⟨⟨49, "7(-2)"⟩, ⟨48, "STARTPATH"⟩, none⟩]),
    (7, [⟨⟨11, "9(-2)"⟩, ⟨10, "STARTPATH"⟩, none⟩])]
  nodup := by decide

theorem hollow_graph_counted_unknown :
    ¬∀ (graphs : GraphSet) (calls built : List GraphId), built.Nodup →
      (∀ g, g ∈ built ↔
        graphs.contains g = true ∧ ∃ c ∈ calls, ReflTransGen graphs.Refers c g) →
      (calls.foldl Splicer.splice (.ofGraphs graphs)).counts.unknown =
        (built.map graphs.undumpedCount).sum := by
  intro h
  have hbuilt : ∀ g, g ∈ [1, 7] ↔ hollowNesting.contains g = true ∧
      ∃ c ∈ [1], ReflTransGen hollowNesting.Refers c g := by
    intro g
    have hids : g ∈ hollowNesting.ids ↔ g ∈ [1, 7] := Iff.rfl
    rw [GraphSet.contains_iff_mem_ids, hids, iff_self_and]
    intro hg
    refine ⟨1, List.mem_singleton_self 1, ?_⟩
    have hnested : hollowNesting.Refers 1 7 := ⟨_, rfl, by decide +kernel, rfl⟩
    simp only [List.mem_cons, List.not_mem_nil, or_false] at hg
    rcases hg with rfl | rfl
    · exact .refl
    · exact .single hnested
  have hcount := h hollowNesting [1] [1, 7] (by decide) hbuilt
  exact absurd hcount (by decide +kernel)

end LeakTrace
