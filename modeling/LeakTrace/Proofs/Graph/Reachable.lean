import LeakTrace.Proofs.Graph.Adjacency

namespace LeakTrace.FlowGraph

open Relation

variable {config : Config} {bindings : Bindings} {lines : List Fragment} {source : Node}

theorem partition?_build_eq_none :
    (build config bindings lines).partition? source = none ↔
      ∀ b, ¬(build config bindings lines).Edge source b := by
  rw [← not_exists, ← contains_successors_build, partition?]
  split
  · next h => simp [h]
  · next h => simp [h]

/-- A source has no partition exactly if no edge leaves it. Otherwise its partition lists the nodes
that one or more edges lead to, and for each of them the predecessors that are the source or reachable
from it. -/
theorem partition?_build_reachable (config : Config) (bindings : Bindings) (lines : List Fragment)
    (source : Node) :
    ((build config bindings lines).partition? source = none ↔
        ∀ b, ¬(build config bindings lines).Edge source b) ∧
      ((∃ b, (build config bindings lines).Edge source b) →
        ∃ part, (build config bindings lines).partition? source = some part ∧
          part.source = source ∧
          (∀ d, d ∈ part.predecessors ↔ TransGen (build config bindings lines).Edge source d) ∧
          ∀ p d, p ∈ part.predecessors.getD d ∅ ↔
            ReflTransGen (build config bindings lines).Edge source p ∧
              (build config bindings lines).Edge p d) := by
  refine ⟨partition?_build_eq_none, fun ⟨b, hb⟩ => ?_⟩
  have hsome : (build config bindings lines).partition? source ≠ none :=
    fun hnone => partition?_build_eq_none.mp hnone b hb
  obtain ⟨part, hpart⟩ := Option.ne_none_iff_exists'.mp hsome
  obtain ⟨hsource, hedge, -⟩ := partition?_spec hpart
  exact ⟨part, hpart, hsource, fun _ => mem_partition? hpart, hedge⟩

/-- Two nodes that were derived from each other, and one that was derived from the second. -/
def circle : List Fragment :=
  [⟨⟨2, "b"⟩, ⟨1, "a"⟩, none⟩, ⟨⟨1, "a"⟩, ⟨2, "b"⟩, none⟩, ⟨⟨3, "c"⟩, ⟨2, "b"⟩, none⟩]

/-- In a circle the source is derived from itself. -/
theorem circle_reachable :
    (∃ b, (build {} .empty circle).Edge ⟨1, "a"⟩ b) ∧
      ∃ part, (build {} .empty circle).partition? ⟨1, "a"⟩ = some part ∧
        ⟨1, "a"⟩ ∈ part.predecessors ∧ ⟨2, "b"⟩ ∈ part.predecessors.getD ⟨3, "c"⟩ ∅ := by
  have hab : (build {} .empty circle).Edge ⟨1, "a"⟩ ⟨2, "b"⟩ := by decide +kernel
  have hba : (build {} .empty circle).Edge ⟨2, "b"⟩ ⟨1, "a"⟩ := by decide +kernel
  have hbc : (build {} .empty circle).Edge ⟨2, "b"⟩ ⟨3, "c"⟩ := by decide +kernel
  obtain ⟨part, hpart, -, hlisted, hedge⟩ :=
    (partition?_build_reachable {} .empty circle ⟨1, "a"⟩).2 ⟨_, hab⟩
  refine ⟨⟨_, hab⟩, part, hpart, ?_, ?_⟩
  · exact (hlisted _).mpr (.tail (.single hab) hba)
  · exact (hedge _ _).mpr ⟨.single hab, hbc⟩

end LeakTrace.FlowGraph
