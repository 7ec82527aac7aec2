import LeakTrace.Proofs.Graph.Partition
import LeakTrace.Proofs.Node.Order
import LeakTrace.Proofs.Unseen
import Mathlib.Data.List.Nodup

namespace LeakTrace.Subgraph

variable {g : Subgraph} {numbers : Std.TreeMap Node Nat} {seen ns : List Node} {n : Node}

/-- The nodes of a drawing, each at the place that is its number: in the order in which they are met for
the first time. -/
def numbered (g : Subgraph) : List Node := g.encounters.eraseDups

/-- The numbers are the places of the nodes in a list without repetitions. -/
structure Numbers (numbers : Std.TreeMap Node Nat) (ns : List Node) : Prop where
  distinct : ns.Nodup
  size_eq : numbers.size = ns.length
  number_eq : ∀ n, numbers[n]? = if n ∈ ns then some (ns.idxOf n) else none

theorem Numbers.empty : Numbers ∅ [] := ⟨.nil, rfl, fun _ => rfl⟩

private theorem Numbers.contains_iff (h : Numbers numbers ns) :
    numbers.contains n = true ↔ n ∈ ns := by
  rw [Std.TreeMap.contains_eq_isSome_getElem?, h.number_eq]
  split
  · next hn => simp [hn]
  · next hn => simp [hn]

/-- A new node takes the next number. -/
theorem Numbers.insert (h : Numbers numbers ns) (hn : n ∉ ns) :
    Numbers (numbers.insert n numbers.size) (ns ++ [n]) where
  distinct := List.nodup_append.mpr ⟨h.distinct, List.nodup_singleton n, by grind⟩
  size_eq := by
    rw [Std.TreeMap.size_insert, if_neg (mt h.contains_iff.mp hn), h.size_eq, List.length_append,
      List.length_singleton]
  number_eq m := by
    rw [Std.TreeMap.getElem?_insert]
    by_cases hm : n = m
    · subst hm
      simp [h.size_eq, List.idxOf_append_of_notMem hn]
    · have hne : ¬compare n m = .eq := fun heq => hm (Std.LawfulEqCmp.eq_of_compare heq)
      rw [if_neg hne, h.number_eq]
      by_cases hmem : m ∈ ns
      · simp [hmem, List.idxOf_append_of_mem hmem]
      · simp [hmem, Ne.symm hm]

/-- Declaring numbers the nodes that are not seen before, one after the other, and has a statement for
each of them. -/
theorem declare_spec (h : Numbers numbers seen) (ns : List Node) :
    Numbers (declare numbers ns).1 (seen ++ unseen seen ns) ∧
      (declare numbers ns).2 = (unseen seen ns).mapIdx fun i n => .node (seen.length + i) n.text := by
  induction ns generalizing numbers seen with
  | nil => exact ⟨by simpa [declare, unseen] using h, rfl⟩
  | cons n ns ih =>
    rw [declare]
    by_cases hn : n ∈ seen
    · rw [if_pos (h.contains_iff.mpr hn), unseen_cons_of_mem hn]
      exact ih h
    · obtain ⟨hnumbers, hitems⟩ := ih (h.insert hn)
      rw [if_neg (mt h.contains_iff.mp hn), unseen_cons_of_not_mem hn]
      refine ⟨by simpa using hnumbers, ?_⟩
      dsimp only
      rw [hitems, List.mapIdx_cons, h.size_eq]
      simp only [List.length_append, List.length_singleton, Nat.add_zero, Nat.add_assoc,
        Nat.add_comm 1]

private theorem numbers_encounters (g : Subgraph) :
    Numbers (declare ∅ g.encounters).1 g.numbered := by
  have hnumbers := (declare_spec .empty g.encounters).1
  rwa [List.nil_append, unseen_nil] at hnumbers

private theorem items_encounters (g : Subgraph) :
    (declare ∅ g.encounters).2 = g.numbered.mapIdx fun i n => .node i n.text := by
  rw [(declare_spec .empty g.encounters).2, unseen_nil, numbered]
  simp only [List.length_nil, Nat.zero_add]

private theorem mem_encounters :
    n ∈ g.encounters ↔ n = g.source ∨ n ∈ g.predecessors ∨ ∃ b, g.Edge n b := by
  simp [encounters, mem_edges, Std.TreeMap.mem_keys]

private theorem mem_numbered :
    n ∈ g.numbered ↔ n = g.source ∨ n ∈ g.predecessors ∨ ∃ b, g.Edge n b := by
  rw [numbered, List.mem_eraseDups, mem_encounters]

private theorem head?_numbered (g : Subgraph) : g.numbered.head? = some g.source := by
  rw [numbered, encounters, List.cons_append, List.eraseDups_cons, List.head?_cons]

private theorem mem_numbered_of_edge {a b : Node} (h : g.Edge a b) :
    a ∈ g.numbered ∧ b ∈ g.numbered :=
  ⟨mem_numbered.mpr (.inr (.inr ⟨b, h⟩)), mem_numbered.mpr (.inr (.inl (mem_predecessors_of_edge h)))⟩

private theorem nodup_edges (g : Subgraph) : g.edges.Nodup := by
  have hkeys : g.predecessors.toList.Pairwise fun p q => p.1 ≠ q.1 := by
    have hnodup : (g.predecessors.toList.map Prod.fst).Nodup := by
      rw [Std.TreeMap.map_fst_toList_eq_keys]
      exact (Node.sortedLT_keys g.predecessors).nodup
    exact List.pairwise_map.mp hnodup
  rw [edges, List.nodup_flatMap]
  refine ⟨fun p _ => ?_, hkeys.imp fun hne => ?_⟩
  · exact (Node.sortedLT_toList p.2).nodup.map fun _ _ h => (Prod.mk.inj h).1
  · rintro edge hedge hedge'
    obtain ⟨_, -, rfl⟩ := List.mem_map.mp hedge
    obtain ⟨_, -, hsame⟩ := List.mem_map.mp hedge'
    exact hne (Prod.mk.inj hsame).2.symm

def edgeNumbers (g : Subgraph) (edge : Node × Node) : Nat × Nat :=
  (g.numbered.idxOf edge.1, g.numbered.idxOf edge.2)

private theorem connect?_encounters {edge : Node × Node} (h : edge ∈ g.edges) :
    connect? (declare ∅ g.encounters).1 edge =
      some (.edge (g.edgeNumbers edge).1 (g.edgeNumbers edge).2) := by
  obtain ⟨hfirst, hsecond⟩ := mem_numbered_of_edge (mem_edges.mp h)
  have hnumber := g.numbers_encounters.number_eq
  rw [connect?, hnumber, hnumber, if_pos hfirst, if_pos hsecond]
  rfl

private theorem nodup_edgeNumbers (g : Subgraph) : (g.edges.map g.edgeNumbers).Nodup := by
  refine g.nodup_edges.map_on fun edge hedge edge' _ h => ?_
  obtain ⟨hfirst, hsecond⟩ := mem_numbered_of_edge (mem_edges.mp hedge)
  obtain ⟨hsame, hsame'⟩ := Prod.mk.inj h
  exact Prod.ext ((List.idxOf_inj hfirst).mp hsame) ((List.idxOf_inj hsecond).mp hsame')

private theorem toDot_eq (g : Subgraph) (title : String) :
    g.toDot title = Dot.header title ++
      String.join (g.numbered.mapIdx fun i n => Dot.nodeLine i n.text) ++
      String.join ((g.edges.map g.edgeNumbers).map fun (i, j) => Dot.edgeLine i j) ++ Dot.footer := by
  have hlines : (g.numbered.mapIdx fun i n => Dot.Item.node i n.text).map Dot.Item.text =
      g.numbered.mapIdx fun i n => Dot.nodeLine i n.text :=
    List.ext_getElem? fun i => by simp [Function.comp_def, Dot.Item.text]
  have hedges : g.edges.filterMap (connect? (declare ∅ g.encounters).1) =
      g.edges.map fun edge => .edge (g.edgeNumbers edge).1 (g.edgeNumbers edge).2 := by
    rw [← List.filterMap_eq_map]
    exact List.filterMap_congr fun edge hedge => connect?_encounters hedge
  rw [toDot]
  dsimp only
  rw [items_encounters, hedges, Dot.render, List.map_append, hlines]
  simp [Dot.Item.text, Function.comp_def, String.append_assoc]

/-- A drawing has a line for each node that is the source, derived or a predecessor, under numbers that
count up in the order in which the nodes are met, and a line for each edge, between the numbers of its
ends. No edge has an end without a number. -/
theorem drawing_shows_subgraph (g : Subgraph) (title : String) :
    g.toDot title = Dot.header title ++
        String.join (g.numbered.mapIdx fun i n => Dot.nodeLine i n.text) ++
        String.join ((g.edges.map g.edgeNumbers).map fun (i, j) => Dot.edgeLine i j) ++
        Dot.footer ∧
      (∀ n, n ∈ g.numbered ↔ n = g.source ∨ n ∈ g.predecessors ∨ ∃ b, g.Edge n b) ∧
      g.numbered.Nodup ∧ g.numbered.head? = some g.source ∧
      (∀ a b, (a, b) ∈ g.edges ↔ g.Edge a b) ∧ (g.edges.map g.edgeNumbers).Nodup ∧
      ∀ a b, g.Edge a b → connect? (declare ∅ g.encounters).1 (a, b) =
        some (.edge (g.numbered.idxOf a) (g.numbered.idxOf b)) ∧ a ∈ g.numbered ∧ b ∈ g.numbered := by
  refine ⟨g.toDot_eq title, fun n => mem_numbered, g.numbers_encounters.distinct, g.head?_numbered,
    fun a b => mem_edges, g.nodup_edgeNumbers, fun a b hedge => ?_⟩
  exact ⟨connect?_encounters (mem_edges.mpr hedge), mem_numbered_of_edge hedge⟩

/-- A source that is derived as well, and two nodes that are met again. -/
def knot : Subgraph where
  source := ⟨1, "a"⟩
  predecessors :=
    [(⟨2, "b"⟩, ⟨1, "a"⟩), (⟨1, "a"⟩, ⟨2, "b"⟩), (⟨3, "STARTPATH"⟩, ⟨2, "b"⟩)].foldl
      (fun m (a, b) => FlowGraph.reverseEdges m a [b]) ∅

theorem knot_drawn :
    knot.Edge ⟨3, "STARTPATH"⟩ ⟨2, "b"⟩ ∧ knot.numbered.idxOf ⟨3, "STARTPATH"⟩ = 2 ∧
      connect? (declare ∅ knot.encounters).1 (⟨3, "STARTPATH"⟩, ⟨2, "b"⟩) = some (.edge 2 1) := by
  have hedge : knot.Edge ⟨3, "STARTPATH"⟩ ⟨2, "b"⟩ := mem_edges.mp (by decide +kernel)
  have hplaces : knot.numbered.idxOf ⟨3, "STARTPATH"⟩ = 2 ∧ knot.numbered.idxOf ⟨2, "b"⟩ = 1 := by
    decide +kernel
  obtain ⟨-, -, -, -, -, -, hconnected⟩ := drawing_shows_subgraph knot "knot"
  have hnumbers := (hconnected _ _ hedge).1
  rw [hplaces.1, hplaces.2] at hnumbers
  exact ⟨hedge, hplaces.1, hnumbers⟩

end LeakTrace.Subgraph
