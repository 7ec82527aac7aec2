import LeakTrace.Proofs.Fold
import LeakTrace.Proofs.Graph.Expansion
import LeakTrace.Proofs.Graph.Worklist
import Mathlib.Algebra.GroupWithZero.Nat

namespace LeakTrace

open Relation

/-- The references that were counted when a graph was built. -/
def SpliceCounts.references (counts : SpliceCounts) : Nat :=
  counts.inlined + counts.unknown + counts.cyclic

/-- The references in the raw list of a graph. -/
def GraphSet.referenceCount (graphs : GraphSet) (g : GraphId) : Nat :=
  (boundaryReferences ((graphs.get? g).getD [])).length

/-- A graph from which references can be followed only so far is on the way to no cycle. -/
theorem GraphSet.acyclicFrom_of_acc {graphs : GraphSet} {g : GraphId}
    (h : Acc (fun t g => graphs.Refers g t) g) : graphs.AcyclicFrom g := by
  induction h with
  | intro a _ ih =>
    intro u hu hcycle
    rcases hu.cases_head with rfl | ⟨b, hab, hbu⟩
    · obtain ⟨b, hab, hba⟩ := TransGen.head'_iff.mp hcycle
      exact ih b hab a hba hcycle
    · exact ih b hab u hbu hcycle

namespace Splicer

variable {graphs : GraphSet} {s s' : Splicer} {g : GraphId} {lines : List Fragment}
  {calls built : List GraphId}

/-- The counters after one more reference. -/
def tally (s : Splicer) (counts : SpliceCounts) (t : GraphId) : SpliceCounts :=
  (s.inline none counts t).2

private theorem inline_snd (s : Splicer) (previous : Option Fragment) (counts : SpliceCounts)
    (t : GraphId) : (s.inline previous counts t).2 = s.tally counts t := by
  unfold tally inline
  split
  · rfl
  · split <;> rfl

private theorem inlineAll_snd (s : Splicer) (previous : Option Fragment) (counts : SpliceCounts)
    (targets : List GraphId) :
    (s.inlineAll previous counts targets).2 = targets.foldl s.tally counts := by
  induction targets generalizing counts with
  | nil => rfl
  | cons t targets ih => rw [inlineAll, List.foldl_cons, ← inline_snd s previous counts t, ← ih]

private theorem expand_snd (s : Splicer) (previous : Option Fragment) (counts : SpliceCounts)
    (lines : List Fragment) :
    (s.expand previous counts lines).2 = (boundaryReferences lines).foldl s.tally counts := by
  induction lines generalizing previous counts with
  | nil => rfl
  | cons line lines ih =>
    rw [boundaryReferences, List.flatMap_cons, List.foldl_append]
    by_cases hb : line.node.isBoundary = true
    · simp only [expand, if_pos hb, inlineAll_snd, ih]
      rfl
    · have hnone : line.node.boundaryTargets = [] := by rw [Node.boundaryTargets, if_neg hb]
      simp only [expand, if_neg hb, ih, hnone]
      rfl

theorem counts_build (s : Splicer) (g : GraphId) (lines : List Fragment) :
    (s.build g lines).counts = (boundaryReferences lines).foldl s.tally s.counts :=
  expand_snd s none s.counts lines

private theorem references_tally (s : Splicer) (counts : SpliceCounts) (t : GraphId) :
    (s.tally counts t).references = counts.references + 1 := by
  unfold tally inline SpliceCounts.references
  split
  · dsimp only
    omega
  · split
    · dsimp only
      omega
    · dsimp only
      omega

private theorem references_foldl_tally (s : Splicer) (counts : SpliceCounts) (l : List GraphId) :
    (l.foldl s.tally counts).references = counts.references + l.length := by
  rw [foldl_sum s.references_tally]
  simp

private theorem removed_tally (s : Splicer) (counts : SpliceCounts) (t : GraphId) :
    (s.tally counts t).removed = counts.removed := by
  unfold tally inline
  split
  · rfl
  · split <;> rfl

private theorem removed_foldl_tally (s : Splicer) (counts : SpliceCounts) (l : List GraphId) :
    (l.foldl s.tally counts).removed = counts.removed := by
  induction l generalizing counts with
  | nil => rfl
  | cons t l ih => rw [List.foldl_cons, ih, removed_tally]

private theorem cyclic_tally (hs : Divided graphs s) (counts : SpliceCounts) (t : GraphId) :
    (s.tally counts t).cyclic = counts.cyclic + if s.raw.contains t then 1 else 0 := by
  unfold tally inline
  split
  · next first rest heq =>
    have hraw : s.raw.contains t = false := by simp [GraphSet.contains, hs.raw_get?, heq]
    simp [hraw]
  · by_cases hraw : s.raw.contains t = true
    · rw [if_pos hraw, if_pos hraw]
    · rw [if_neg hraw, if_neg hraw]
      rfl

private theorem cyclic_foldl_tally (hs : Divided graphs s) (counts : SpliceCounts)
    (l : List GraphId) :
    (l.foldl s.tally counts).cyclic = counts.cyclic + l.countP s.raw.contains :=
  foldl_countP (cyclic_tally hs) l counts

namespace Builds

theorem references (h : Builds graphs calls s built s') :
    s'.counts.references = s.counts.references + (built.map graphs.referenceCount).sum := by
  induction h with
  | nil => rfl
  | concat _ hready ih =>
    rw [counts_build, references_foldl_tally, ih, List.map_append, List.sum_append,
      List.map_singleton, List.sum_singleton, GraphSet.referenceCount, hready.lines_eq,
      Option.getD_some, Nat.add_assoc]

theorem removed (h : Builds graphs calls s built s') : s'.counts.removed = s.counts.removed := by
  induction h with
  | nil => rfl
  | concat _ hready ih => rw [counts_build, removed_foldl_tally, ih]

/-- A reference that counts as cyclic lies on a cycle. -/
theorem cycle_of_cyclic (h : Builds graphs calls (ofGraphs graphs) built s)
    (hpos : 0 < s.counts.cyclic) :
    ∃ c ∈ calls, ∃ g, ReflTransGen graphs.Refers c g ∧ TransGen graphs.Refers g g := by
  induction h with
  | nil => exact absurd hpos (by simp [ofGraphs])
  | @concat built s g lines hbuilds hready ih =>
    have hs := hbuilds.divided (divided_ofGraphs graphs)
    rw [counts_build, cyclic_foldl_tally hs] at hpos
    rcases Nat.add_pos_iff_pos_or_pos.mp hpos with hbefore | hhere
    · exact ih hbefore
    · obtain ⟨t, ht, hraw⟩ := List.countP_pos_iff.mp hhere
      have hwaits : s.result? t = none := by
        by_contra hdone
        have hsome := Option.isSome_iff_ne_none.mpr hdone
        rw [GraphSet.contains, hs.raw_get?, if_pos hsome] at hraw
        exact absurd hraw (by simp)
      have hdumped : graphs.contains t = true := by
        rw [GraphSet.contains, ← hs.get? hwaits]
        exact hraw
      have hstep : graphs.Refers g t := ⟨lines, hready.lines_eq, ht, hdumped⟩
      obtain ⟨c, hc, hreach⟩ := hready.called
      exact ⟨c, hc, g, hreach, .head hstep (hready.named t hstep hwaits)⟩

/-- If no reference counts as cyclic, graphs are built after all that they name. -/
theorem acc_of_not_cyclic (h : Builds graphs calls (ofGraphs graphs) built s)
    (hzero : s.counts.cyclic = 0) :
    ∀ g, (s.result? g).isSome = true → Acc (fun t g => graphs.Refers g t) g := by
  induction h with
  | nil => simp [ofGraphs, result?]
  | @concat built s g lines hbuilds hready ih =>
    have hs := hbuilds.divided (divided_ofGraphs graphs)
    rw [counts_build, cyclic_foldl_tally hs] at hzero
    obtain ⟨hbefore, hhere⟩ := Nat.add_eq_zero_iff.mp hzero
    intro u hu
    rw [result?_build] at hu
    split at hu
    · next heq =>
      subst heq
      refine Acc.intro g fun t hrefers => ih hbefore t ?_
      obtain ⟨lines', hlines', ht, hdumped⟩ := hrefers
      obtain rfl : lines = lines' := Option.some.inj (hready.lines_eq.symm.trans hlines')
      rw [Option.isSome_iff_ne_none]
      intro hwaits
      exact List.countP_eq_zero.mp hhere t ht
        (Option.isSome_iff_ne_none.mpr (hs.raw_get?_ne_none hdumped hwaits))
    · exact ih hbefore u hu

theorem isSome_of_mem (h : Builds graphs calls s built s') :
    ∀ g ∈ built, (s'.result? g).isSome = true := by
  induction h with
  | nil => simp
  | concat _ hready ih =>
    intro u hu
    rw [result?_build]
    split
    · rfl
    · next hne =>
      rcases List.mem_append.mp hu with hu | hu
      · exact ih u hu
      · exact absurd (List.mem_singleton.mp hu).symm hne

theorem nodup (h : Builds graphs calls s built s') : built.Nodup := by
  induction h with
  | nil => exact List.nodup_nil
  | @concat built s' g lines hbuilds hready ih =>
    rw [← List.concat_eq_append]
    refine ih.concat fun hmem => ?_
    have hdone := hbuilds.isSome_of_mem g hmem
    rw [hready.waits] at hdone
    exact absurd hdone (by simp)

end Builds

end Splicer

/-- Whatever the references are, every call ends, and no graph is built twice. The graphs that are
built are those that the calls lead to; the counters add up to the references in their raw lists;
and one counts as cyclic if and only if the calls lead to a cycle. -/
theorem splice_calls_counted (graphs : GraphSet) (calls : List GraphId) :
    let s := calls.foldl Splicer.splice (.ofGraphs graphs)
    ∃ built : List GraphId, Splicer.WorkedOff (.ofGraphs graphs) calls built s ∧ built.Nodup ∧
      (∀ g, g ∈ built ↔
        graphs.contains g = true ∧ ∃ c ∈ calls, ReflTransGen graphs.Refers c g) ∧
      s.counts.inlined + s.counts.unknown + s.counts.cyclic =
        (built.map graphs.referenceCount).sum ∧
      (0 < s.counts.cyclic ↔
        ∃ c ∈ calls, ∃ g, ReflTransGen graphs.Refers c g ∧ TransGen graphs.Refers g g) := by
  intro s
  obtain ⟨built, hvisits⟩ := Splicer.Visits.calls (.ofGraphs graphs) calls
  have hworked := hvisits.workedOff graphs.nodup fun _ => GraphSet.mem_ids_of_get?_ne_none
  have hbuilds := hvisits.builds_called (Splicer.divided_ofGraphs graphs)
  have htotal := hbuilds.references
  rw [show (Splicer.ofGraphs graphs).counts.references = 0 from rfl, Nat.zero_add] at htotal
  refine ⟨built, hworked, hbuilds.nodup, fun _ => hvisits.mem_built_iff, htotal,
    hbuilds.cycle_of_cyclic, ?_⟩
  rintro ⟨c, hc, g, hreach, hcycle⟩
  rw [Nat.pos_iff_ne_zero]
  intro hzero
  obtain ⟨t, hstep, -⟩ := TransGen.head'_iff.mp hcycle
  have hdone := hvisits.isSome_of_reaches hc hreach hstep.dumped
  exact GraphSet.acyclicFrom_of_acc (hbuilds.acc_of_not_cyclic hzero g hdone) g .refl hcycle

end LeakTrace
