import LeakTrace.Proofs.Graph.Adjacency
import Mathlib.Algebra.BigOperators.Fin

namespace LeakTrace

namespace Config

/-- The node that the predecessors of the line in a place lead to. -/
def effectiveNode (config : Config) (lines : List Fragment) : Fin lines.length → Node
  | ⟨0, _⟩ => lines[0].node
  | ⟨i + 1, _⟩ =>
    let previous := lines[i].left
    let own := lines[i + 1].node
    if config.repairFrameworkLinks = true ∧ previous.statement ≠ own.statement ∧
        config.isFramework previous.statement = true ∧ config.isFramework own.statement = true
    then previous
    else own

variable (config : Config)

private theorem derivedNode_some (previous : Node) (line : Fragment) :
    config.derivedNode (some previous) line =
      if config.repairFrameworkLinks = true ∧ previous.statement ≠ line.node.statement ∧
          config.isFramework previous.statement = true ∧
          config.isFramework line.node.statement = true
      then previous
      else line.node := by
  simp [derivedNode, and_assoc]

@[simp] theorem length_derivations (previousLeft : Option Node) (lines : List Fragment) :
    (config.derivations previousLeft lines).length = lines.length := by
  induction lines generalizing previousLeft with
  | nil => rfl
  | cons line lines ih => simp [derivations, ih]

private theorem getElem?_derivations_succ (previousLeft : Option Node) (lines : List Fragment)
    (i : Nat)
    (h : i + 1 < lines.length) :
    (config.derivations previousLeft lines)[i + 1]? =
      some (config.derivedNode (some lines[i].left) lines[i + 1], lines[i + 1].predecessors) := by
  induction lines generalizing previousLeft i with
  | nil => exact absurd h (by simp)
  | cons line lines ih =>
    cases i with
    | zero =>
      cases lines with
      | nil => exact absurd h (by simp)
      | cons next lines => rfl
    | succ i => exact ih (some line.left) i (by simpa using h)

private theorem derivations_eq_ofFn (lines : List Fragment) :
    config.derivations none lines =
      List.ofFn fun i : Fin lines.length =>
        (config.effectiveNode lines i, lines[i].predecessors) := by
  refine List.ext_getElem (by simp) fun i hi _ => ?_
  rw [List.getElem_ofFn]
  cases i with
  | zero =>
    cases lines with
    | nil => exact absurd hi (by simp)
    | cons line lines => rfl
  | succ i =>
    have hplace := getElem?_derivations_succ config none lines i (by simpa using hi)
    rw [List.getElem?_eq_getElem hi, derivedNode_some] at hplace
    exact Option.some.inj hplace

end Config

namespace FlowGraph

variable {config : Config} {bindings : Bindings} {g : FlowGraph}

@[simp] theorem droppedEdges_noteSource (n : Node) :
    (noteSource bindings g n).droppedEdges = g.droppedEdges := by
  rw [noteSource]
  split
  · rfl
  · rfl

private theorem droppedEdges_addEdge (a b : Node) :
    (g.addEdge a b).droppedEdges =
      g.droppedEdges + if !a.isRoot && isDropped a b then 1 else 0 := by
  rw [addEdge]
  split
  · next hroot => simp [hroot]
  · next hroot =>
    split
    · next hdropped => simp [hroot, hdropped]
    · next hdropped => simp [hdropped]

private theorem droppedEdges_addDerivation (g : FlowGraph) (d : Node × List Node) :
    (addDerivation bindings g d).droppedEdges =
      g.droppedEdges + d.2.countP fun p => !p.isRoot && isDropped p d.1 := by
  have hstep : ∀ (g : FlowGraph) (p : Node),
      ((g.noteSource bindings p).addEdge p d.1).droppedEdges =
        g.droppedEdges + if !p.isRoot && isDropped p d.1 then 1 else 0 := by
    intro g p
    rw [droppedEdges_addEdge, droppedEdges_noteSource]
  rw [addDerivation, foldl_countP hstep, droppedEdges_noteSource]

private theorem edge_build_iff_place {lines : List Fragment} {a b : Node} :
    (build config bindings lines).Edge a b ↔
      (∃ i : Fin lines.length, a ∈ lines[i].predecessors ∧ config.effectiveNode lines i = b) ∧
        CanFlow a b := by
  rw [edge_build, config.derivations_eq_ofFn]
  refine and_congr_left fun _ => ?_
  simp [and_comm]

/-- A predecessor that is no root gives no edge exactly if the edge is one that is dropped. -/
theorem isDropped_iff_not_edge {lines : List Fragment} (i : Fin lines.length) {p : Node}
    (hp : p ∈ lines[i].predecessors) :
    (!p.isRoot && isDropped p (config.effectiveNode lines i)) = true ↔
      (!p.isRoot &&
        !decide ((build config bindings lines).Edge p (config.effectiveNode lines i))) = true := by
  have hedge : (build config bindings lines).Edge p (config.effectiveNode lines i) ↔
      CanFlow p (config.effectiveNode lines i) :=
    edge_build_iff_place.trans (and_iff_right ⟨i, hp, rfl⟩)
  cases hroot : p.isRoot with
  | true => simp
  | false => simp [hedge, CanFlow, hroot]

private theorem droppedEdges_build (lines : List Fragment) :
    (build config bindings lines).droppedEdges =
      ∑ i : Fin lines.length, lines[i].predecessors.countP fun p => !p.isRoot &&
        !decide ((build config bindings lines).Edge p (config.effectiveNode lines i)) := by
  have hcount : (build config bindings lines).droppedEdges =
      ∑ i : Fin lines.length, lines[i].predecessors.countP fun p => !p.isRoot &&
        isDropped p (config.effectiveNode lines i) := by
    rw [build, foldl_sum droppedEdges_addDerivation, config.derivations_eq_ofFn, List.map_ofFn,
      List.sum_ofFn]
    exact Nat.zero_add _
  rw [hcount]
  refine Finset.sum_congr rfl fun i _ => List.countP_congr fun p hp => ?_
  exact isDropped_iff_not_edge i hp

/-- What is recorded is what the lines say, place by place: an edge for each predecessor of a line
that is no root, unless it or the derived node is a boundary node or they are one node; one dropped
edge for each other predecessor that is no root; and as sources the nodes of the lines that are
neither roots nor boundary nodes and whose times were announced. -/
theorem build_recorded (config : Config) (bindings : Bindings) (lines : List Fragment) :
    (∀ a b, (build config bindings lines).Edge a b ↔
        (∃ i : Fin lines.length, a ∈ lines[i].predecessors ∧ config.effectiveNode lines i = b) ∧
          a.isRoot = false ∧ a.isBoundary = false ∧ b.isBoundary = false ∧ a ≠ b) ∧
      (build config bindings lines).droppedEdges =
        ∑ i : Fin lines.length, lines[i].predecessors.countP (fun p => !p.isRoot &&
          !decide ((build config bindings lines).Edge p (config.effectiveNode lines i))) ∧
      ∀ n, n ∈ (build config bindings lines).sources ↔
        (∃ i : Fin lines.length, n = config.effectiveNode lines i ∨ n ∈ lines[i].predecessors) ∧
          n.isRoot = false ∧ n.isBoundary = false ∧ bindings.isSource n.time = true := by
  refine ⟨fun a b => ?_, droppedEdges_build lines, fun n => ?_⟩
  · rw [edge_build_iff_place]
    refine and_congr_right fun _ => ?_
    simp [CanFlow, isDropped, and_assoc]
  · rw [mem_sources_build, Config.Mentions, config.derivations_eq_ofFn]
    refine and_congr ?_ ⟨fun h => ⟨h.not_root, h.not_boundary, h.recorded⟩, fun h => ⟨h.1, h.2.1, h.2.2⟩⟩
    simp

end FlowGraph

end LeakTrace
