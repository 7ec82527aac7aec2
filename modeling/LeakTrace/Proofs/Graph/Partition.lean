import LeakTrace.Graph.Flow
import LeakTrace.Proofs.Fold
import Mathlib.Logic.Relation

namespace LeakTrace

open Relation

/-- The second node was derived directly from the first. -/
def FlowGraph.Edge (g : FlowGraph) (a b : Node) : Prop := b ∈ g.successors.getD a ∅

instance (g : FlowGraph) (a b : Node) : Decidable (g.Edge a b) :=
  inferInstanceAs (Decidable (b ∈ g.successors.getD a ∅))

/-- The first node is listed among the predecessors of the second. -/
def Subgraph.Edge (g : Subgraph) (a b : Node) : Prop := a ∈ g.predecessors.getD b ∅

theorem mem_getD_insert_insert (m : Std.TreeMap Node (Std.TreeSet Node)) (a b k n : Node) :
    n ∈ (m.insert k ((m.getD k ∅).insert a)).getD b ∅ ↔ n ∈ m.getD b ∅ ∨ k = b ∧ a = n := by
  rw [Std.TreeMap.getD_insert]
  by_cases hk : k = b
  · subst hk
    rw [if_pos (Std.ReflCmp.compare_self), Std.TreeSet.mem_insert, Std.LawfulEqCmp.compare_eq_iff_eq]
    simp only [true_and]
    exact or_comm
  · have hne : ¬compare k b = .eq := fun h => hk (Std.LawfulEqCmp.eq_of_compare h)
    simp [hne, hk]

namespace FlowGraph

theorem edge_iff {g : FlowGraph} {a b : Node} :
    g.Edge a b ↔ ∃ next, g.successors[a]? = some next ∧ b ∈ next := by
  rw [Edge, Std.TreeMap.getD_eq_getD_getElem?]
  cases h : g.successors[a]? with
  | none => simp
  | some next => simp

private theorem not_edge_of_none {g : FlowGraph} {a b : Node} (h : g.successors[a]? = none) :
    ¬g.Edge a b := by
  rw [edge_iff, h]
  simp

private theorem mem_reverseEdges (m : Std.TreeMap Node (Std.TreeSet Node)) (a : Node)
    (bs : List Node)
    (n b : Node) :
    n ∈ (reverseEdges m a bs).getD b ∅ ↔ n ∈ m.getD b ∅ ∨ a = n ∧ b ∈ bs := by
  have hfold := foldl_iff (Q := fun m : Std.TreeMap Node (Std.TreeSet Node) => n ∈ m.getD b ∅)
    (fun m c => mem_getD_insert_insert m a b c n) bs m
  refine hfold.trans (or_congr_right ⟨?_, ?_⟩)
  · rintro ⟨c, hc, rfl, rfl⟩
    exact ⟨rfl, hc⟩
  · rintro ⟨rfl, hb⟩
    exact ⟨b, hb, rfl, rfl⟩

private theorem mem_keys_reverseEdges (m : Std.TreeMap Node (Std.TreeSet Node)) (a : Node)
    (bs : List Node)
    (b : Node) : b ∈ reverseEdges m a bs ↔ b ∈ m ∨ b ∈ bs := by
  rw [reverseEdges]
  induction bs generalizing m with
  | nil => simp
  | cons c bs ih =>
    rw [List.foldl_cons, ih, Std.TreeMap.mem_insert, Std.LawfulEqCmp.compare_eq_iff_eq, List.mem_cons,
      eq_comm, or_assoc, or_left_comm]

/-- What holds while the nodes reachable from a source are read: the unread nodes still have their
successors, an edge is reversed once the node that it leaves is read, nothing is read or stacked that
is not reachable, and what follows a read node is read or stacked. -/
structure Collecting (g : FlowGraph) (source : Node) (unread : Std.TreeMap Node (Std.TreeSet Node))
    (stack : List Node) (predecessors : Std.TreeMap Node (Std.TreeSet Node)) : Prop where
  unread_or : ∀ n : Node, unread[n]? = none ∨ unread[n]? = g.successors[n]?
  reversed : ∀ a b : Node, a ∈ predecessors.getD b ∅ ↔ unread[a]? = none ∧ g.Edge a b
  listed : ∀ b, b ∈ predecessors ↔ ∃ a, a ∈ predecessors.getD b ∅
  stacked : ∀ n ∈ stack, ReflTransGen g.Edge source n
  read : ∀ a b : Node, unread[a]? = none → g.Edge a b → ReflTransGen g.Edge source a
  start : source ∈ stack ∨ unread[source]? = none
  follow : ∀ a b : Node, unread[a]? = none → g.Edge a b → b ∈ stack ∨ unread[b]? = none

namespace Collecting

variable {g : FlowGraph} {source n : Node} {stack : List Node}
  {unread predecessors : Std.TreeMap Node (Std.TreeSet Node)}

theorem init (g : FlowGraph) (source : Node) : Collecting g source g.successors [source] ∅ where
  unread_or := fun _ => .inr rfl
  reversed := by
    intro a b
    have hnone : ¬(g.successors[a]? = none ∧ g.Edge a b) := fun h => not_edge_of_none h.1 h.2
    rw [iff_false_intro hnone]
    simp
  listed := by simp
  stacked := by
    intro n hn
    rw [List.mem_singleton.mp hn]
  read := fun _ _ hnone hedge => absurd hedge (not_edge_of_none hnone)
  start := .inl (List.mem_singleton_self source)
  follow := fun _ _ hnone hedge => absurd hedge (not_edge_of_none hnone)

/-- A node that was read before leaves the stack. -/
theorem skip (h : Collecting g source unread (n :: stack) predecessors) (hn : unread[n]? = none) :
    Collecting g source unread stack predecessors := by
  have hkeep : ∀ m : Node, m ∈ n :: stack ∨ unread[m]? = none → m ∈ stack ∨ unread[m]? = none := by
    intro m hm
    rcases hm with hm | hm
    · rcases List.mem_cons.mp hm with rfl | hm
      · exact .inr hn
      · exact .inl hm
    · exact .inr hm
  exact {
    unread_or := h.unread_or
    reversed := h.reversed
    listed := h.listed
    stacked := fun m hm => h.stacked m (List.mem_cons_of_mem n hm)
    read := h.read
    start := hkeep source h.start
    follow := fun a b ha hedge => hkeep b (h.follow a b ha hedge) }

private theorem getElem?_erase_eq_none {a : Node} :
    (unread.erase n)[a]? = none ↔ a = n ∨ unread[a]? = none := by
  rw [Std.TreeMap.getElem?_erase]
  by_cases ha : n = a
  · simp [ha]
  · simp [ha, Ne.symm ha, Std.LawfulEqCmp.compare_eq_iff_eq]

variable {next : Std.TreeSet Node}

private theorem edge_iff_mem_next (h : Collecting g source unread (n :: stack) predecessors)
    (hn : unread[n]? = some next) (b : Node) : g.Edge n b ↔ b ∈ next.toList := by
  have hnext : g.successors[n]? = some next := by
    rcases h.unread_or n with hu | hu
    · rw [hn] at hu
      exact absurd hu (by simp)
    · rw [← hu, hn]
  rw [edge_iff, hnext, Std.TreeSet.mem_toList]
  simp

private theorem reversed_visit (h : Collecting g source unread (n :: stack) predecessors)
    (hn : unread[n]? = some next) (a b : Node) :
    a ∈ (reverseEdges predecessors n next.toList).getD b ∅ ↔
      (unread.erase n)[a]? = none ∧ g.Edge a b := by
  rw [mem_reverseEdges, h.reversed, getElem?_erase_eq_none, ← h.edge_iff_mem_next hn]
  constructor
  · rintro (⟨ha, he⟩ | ⟨rfl, he⟩)
    · exact ⟨.inr ha, he⟩
    · exact ⟨.inl rfl, he⟩
  · rintro ⟨rfl | ha, he⟩
    · exact .inr ⟨rfl, he⟩
    · exact .inl ⟨ha, he⟩

private theorem listed_visit (h : Collecting g source unread (n :: stack) predecessors) (b : Node) :
    b ∈ reverseEdges predecessors n next.toList ↔
      ∃ a, a ∈ (reverseEdges predecessors n next.toList).getD b ∅ := by
  simp only [mem_keys_reverseEdges, mem_reverseEdges, h.listed]
  constructor
  · rintro (⟨a, ha⟩ | hb)
    · exact ⟨a, .inl ha⟩
    · exact ⟨n, .inr ⟨rfl, hb⟩⟩
  · rintro ⟨a, ha | ⟨-, hb⟩⟩
    · exact .inl ⟨a, ha⟩
    · exact .inr hb

private theorem stacked_or_read {m : Node} (hm : m ∈ n :: stack ∨ unread[m]? = none) :
    m ∈ next.toList ++ stack ∨ (unread.erase n)[m]? = none := by
  rw [getElem?_erase_eq_none]
  rcases hm with hm | hm
  · rcases List.mem_cons.mp hm with rfl | hm
    · exact .inr (.inl rfl)
    · exact .inl (List.mem_append_right _ hm)
  · exact .inr (.inr hm)

private theorem visit (h : Collecting g source unread (n :: stack) predecessors)
    (hn : unread[n]? = some next) :
    Collecting g source (unread.erase n) (next.toList ++ stack)
      (reverseEdges predecessors n next.toList) where
  unread_or := by
    intro m
    rw [Std.TreeMap.getElem?_erase]
    split
    · exact .inl rfl
    · exact h.unread_or m
  reversed := h.reversed_visit hn
  listed := h.listed_visit
  stacked := by
    intro m hm
    have hreached : ReflTransGen g.Edge source n := h.stacked n List.mem_cons_self
    rcases List.mem_append.mp hm with hm | hm
    · exact hreached.tail ((h.edge_iff_mem_next hn m).mpr hm)
    · exact h.stacked m (List.mem_cons_of_mem n hm)
  read := by
    intro a b ha he
    rcases getElem?_erase_eq_none.mp ha with rfl | ha
    · exact h.stacked a List.mem_cons_self
    · exact h.read a b ha he
  start := stacked_or_read h.start
  follow := by
    intro a b ha he
    rcases getElem?_erase_eq_none.mp ha with rfl | ha
    · exact .inl (List.mem_append_left _ ((h.edge_iff_mem_next hn b).mp he))
    · exact stacked_or_read (h.follow a b ha he)

private theorem edge_iff_of_done (h : Collecting g source unread [] predecessors) (a b : Node) :
    a ∈ predecessors.getD b ∅ ↔ ReflTransGen g.Edge source a ∧ g.Edge a b := by
  have hread : ∀ m : Node, ReflTransGen g.Edge source m → unread[m]? = none := by
    intro m hm
    induction hm with
    | refl => exact h.start.resolve_left List.not_mem_nil
    | tail _ hstep ih => exact (h.follow _ _ ih hstep).resolve_left List.not_mem_nil
  rw [h.reversed]
  constructor
  · rintro ⟨ha, he⟩
    exact ⟨h.read a b ha he, he⟩
  · rintro ⟨ha, he⟩
    exact ⟨hread a ha, he⟩

end Collecting

/-- What collecting gives, from any state that the invariant holds of. -/
theorem Collecting.collect {g : FlowGraph} {source : Node} {stack : List Node}
    {unread predecessors : Std.TreeMap Node (Std.TreeSet Node)}
    (h : Collecting g source unread stack predecessors) :
    ∃ rest, Collecting g source rest [] (collect unread stack predecessors) := by
  fun_induction FlowGraph.collect unread stack predecessors with
  | case1 unread predecessors => exact ⟨unread, h⟩
  | case2 unread predecessors n stack hn ih => exact ih (h.skip hn)
  | case3 unread predecessors n stack next hn ih => exact ih (h.visit hn)

private theorem collect_of_read {n : Node} {stack : List Node}
    {unread predecessors : Std.TreeMap Node (Std.TreeSet Node)} (h : unread[n]? = none) :
    collect unread (n :: stack) predecessors = collect unread stack predecessors := by
  rw [collect]
  split
  · rfl
  · next next hnext =>
    rw [h] at hnext
    exact absurd hnext (by simp)

theorem collect_of_unread {n : Node} {stack : List Node} {next : Std.TreeSet Node}
    {unread predecessors : Std.TreeMap Node (Std.TreeSet Node)} (h : unread[n]? = some next) :
    collect unread (n :: stack) predecessors =
      collect (unread.erase n) (next.toList ++ stack)
        (reverseEdges predecessors n next.toList) := by
  rw [collect]
  split
  · next hnone =>
    rw [h] at hnone
    exact absurd hnone (by simp)
  · next next' hnext =>
    obtain rfl : next = next' := Option.some.inj (h.symm.trans hnext)
    rfl

theorem collect_of_all_read {stack : List Node}
    {unread predecessors : Std.TreeMap Node (Std.TreeSet Node)}
    (h : ∀ n ∈ stack, unread[n]? = none) : collect unread stack predecessors = predecessors := by
  induction stack with
  | nil => rw [collect]
  | cons n stack ih =>
    rw [collect_of_read (h n List.mem_cons_self)]
    exact ih fun m hm => h m (List.mem_cons_of_mem n hm)

variable {g : FlowGraph} {source : Node} {part : Subgraph}

theorem partition?_of_leaves {next : List Node}
    (hnext : g.successors[source]?.map Std.TreeSet.toList = some next)
    (hleaves : ∀ n ∈ next, (g.successors.erase source)[n]? = none) :
    g.partition? source = some ⟨source, reverseEdges ∅ source next⟩ := by
  obtain ⟨set, hset, rfl⟩ := Option.map_eq_some_iff.mp hnext
  rw [partition?, Std.TreeMap.contains_eq_isSome_getElem?, hset, Option.isSome_some, if_pos rfl,
    collect_of_unread hset, List.append_nil, collect_of_all_read hleaves]

theorem filterMap_partition?_of_forks {forks : List (Node × List Node)}
    (h : ∀ fork ∈ forks, g.successors[fork.1]?.map Std.TreeSet.toList = some fork.2 ∧
      ∀ n ∈ fork.2, (g.successors.erase fork.1)[n]? = none) :
    (forks.map Prod.fst).filterMap g.partition? =
      forks.map fun fork => ⟨fork.1, reverseEdges ∅ fork.1 fork.2⟩ := by
  induction forks with
  | nil => rfl
  | cons fork forks ih =>
    obtain ⟨⟨hnext, hleaves⟩, hrest⟩ := List.forall_mem_cons.mp h
    rw [List.map_cons, List.filterMap_cons_some (partition?_of_leaves hnext hleaves), ih hrest,
      List.map_cons]

/-- The edges of a partition, and the nodes that it lists. -/
theorem partition?_spec (h : g.partition? source = some part) :
    part.source = source ∧
      (∀ a b, part.Edge a b ↔ ReflTransGen g.Edge source a ∧ g.Edge a b) ∧
      ∀ b, b ∈ part.predecessors ↔ ∃ a, part.Edge a b := by
  rw [partition?] at h
  split at h
  · have hpart : ⟨source, collect g.successors [source] ∅⟩ = part := Option.some.inj h
    subst hpart
    obtain ⟨rest, hrest⟩ := (Collecting.init g source).collect
    exact ⟨rfl, hrest.edge_iff_of_done, hrest.listed⟩
  · exact absurd h (by simp)

theorem source_partition? (h : g.partition? source = some part) : part.source = source :=
  (partition?_spec h).1

/-- The derived nodes of a partition are those that a path of one or more edges leads to. -/
theorem mem_partition? (h : g.partition? source = some part) {b : Node} :
    b ∈ part.predecessors ↔ TransGen g.Edge source b := by
  obtain ⟨-, hedge, hlisted⟩ := partition?_spec h
  rw [hlisted, TransGen.tail'_iff]
  exact exists_congr fun a => hedge a b

/-- From the source, a partition has the paths of the flow graph. -/
theorem reaches_of_partition? (h : g.partition? source = some part) {b : Node}
    (hb : ReflTransGen part.Edge part.source b) : ReflTransGen g.Edge source b := by
  obtain ⟨hsource, hedge, -⟩ := partition?_spec h
  rw [hsource] at hb
  exact ReflTransGen.mono (fun a c hac => ((hedge a c).mp hac).2) _ _ hb

end FlowGraph

namespace Subgraph

theorem mem_edges {g : Subgraph} {a b : Node} : (a, b) ∈ g.edges ↔ g.Edge a b := by
  rw [edges, List.mem_flatMap, Edge, Std.TreeMap.getD_eq_getD_getElem?]
  constructor
  · rintro ⟨⟨derived, preds⟩, hentry, hmem⟩
    obtain ⟨p, hp, heq⟩ := List.mem_map.mp hmem
    obtain ⟨rfl, rfl⟩ := Prod.mk.inj heq
    rw [Std.TreeMap.mem_toList_iff_getElem?_eq_some.mp hentry]
    exact Std.TreeSet.mem_toList.mp hp
  · intro h
    cases hpreds : g.predecessors[b]? with
    | none =>
      rw [hpreds] at h
      simp at h
    | some preds =>
      rw [hpreds] at h
      have hmem : a ∈ preds.toList := Std.TreeSet.mem_toList.mpr h
      exact ⟨(b, preds), Std.TreeMap.mem_toList_iff_getElem?_eq_some.mpr hpreds,
        List.mem_map.mpr ⟨a, hmem, rfl⟩⟩

private theorem getD_forwardEdges (m : Std.TreeMap Node (List Node)) (edges : List (Node × Node))
    (a : Node) :
    (edges.foldl (fun m (a, b) => m.insert a (m.getD a [] ++ [b])) m).getD a [] =
      m.getD a [] ++ (edges.filter fun edge => edge.1 = a).map Prod.snd := by
  induction edges generalizing m with
  | nil => simp
  | cons edge edges ih =>
    obtain ⟨c, d⟩ := edge
    rw [List.foldl_cons, ih, Std.TreeMap.getD_insert]
    by_cases hc : c = a
    · subst hc
      simp
    · have hne : ¬compare c a = .eq := fun h => hc (Std.LawfulEqCmp.eq_of_compare h)
      simp [hne, hc]

private theorem contains_forwardEdges (m : Std.TreeMap Node (List Node))
    (edges : List (Node × Node))
    (a : Node) :
    (edges.foldl (fun m (a, b) => m.insert a (m.getD a [] ++ [b])) m).contains a = true ↔
      m.contains a = true ∨ ∃ b, (a, b) ∈ edges := by
  induction edges generalizing m with
  | nil => simp
  | cons edge edges ih =>
    obtain ⟨c, d⟩ := edge
    rw [List.foldl_cons, ih, Std.TreeMap.contains_insert]
    by_cases hc : c = a
    · subst hc
      simp
    · have hne : (compare c a == .eq) = false := by simpa using hc
      simp [hne, Ne.symm hc]

/-- Reversing the edges of a subgraph once more, in the order of its edges. -/
theorem getD_forward (g : Subgraph) (a : Node) :
    g.forward.getD a [] = (g.edges.filter fun edge => edge.1 = a).map Prod.snd := by
  rw [forward, getD_forwardEdges]
  simp

theorem mem_forward {g : Subgraph} {a b : Node} : b ∈ g.forward.getD a [] ↔ g.Edge a b := by
  rw [getD_forward, ← mem_edges]
  simp

theorem contains_forward {g : Subgraph} {a : Node} :
    g.forward.contains a = true ↔ ∃ b, g.Edge a b := by
  rw [forward, contains_forwardEdges]
  simp [mem_edges]

theorem mem_predecessors_of_edge {g : Subgraph} {a b : Node} (h : g.Edge a b) :
    b ∈ g.predecessors := by
  refine Decidable.byContradiction fun hb => ?_
  rw [Subgraph.Edge, Std.TreeMap.getD_eq_fallback hb] at h
  exact absurd h (by simp)

theorem mem_terminals {g : Subgraph} {n : Node} :
    n ∈ g.terminals ↔ n ∈ g.predecessors ∧ ∀ b, ¬g.Edge n b := by
  have hlast : (!g.forward.contains n) = true ↔ ∀ b, ¬g.Edge n b := by
    rw [Bool.not_eq_true', ← Bool.not_eq_true, contains_forward, not_exists]
  rw [terminals, List.mem_filter, Std.TreeMap.mem_keys, hlast]

end Subgraph

/-- The terminals of a partition are the nodes that a path of one or more edges leads to and that no
edge leaves. -/
theorem FlowGraph.mem_terminals_partition? {g : FlowGraph} {source n : Node} {part : Subgraph}
    (h : g.partition? source = some part) :
    n ∈ part.terminals ↔ TransGen g.Edge source n ∧ ∀ b, ¬g.Edge n b := by
  obtain ⟨-, hedge, -⟩ := partition?_spec h
  rw [Subgraph.mem_terminals, mem_partition? h]
  refine and_congr_right fun hreach => forall_congr' fun b => not_congr ?_
  exact (hedge n b).trans (and_iff_right hreach.to_reflTransGen)

end LeakTrace
