import LeakTrace.Proofs.Graph.Partition
import LeakTrace.Proofs.Node.Order
import Mathlib.Data.Set.Finite.List

namespace LeakTrace

open Relation

/-- Where every element of a list is followed by another of the list, some element follows itself. -/
theorem exists_transGen_self {α : Type} {r : α → α → Prop} {l : List α} (hne : l ≠ [])
    (hnext : ∀ a ∈ l, ∃ b ∈ l, r a b) : ∃ a, TransGen r a a := by
  by_contra! hno
  let later (a b : {a // a ∈ l}) : Prop := TransGen r b.1 a.1
  have hirrefl : Std.Irrefl later := ⟨fun a => hno a.1⟩
  have htrans : IsTrans {a // a ∈ l} later := ⟨fun _ _ _ hba hcb => hcb.trans hba⟩
  have hfinite : Finite {a // a ∈ l} := l.finite_toSet.to_subtype
  -- without a circle the list has a last element, and what follows that one comes later
  obtain ⟨a, ha⟩ := List.exists_mem_of_ne_nil l hne
  obtain ⟨last, -, hlast⟩ :=
    (Finite.wellFounded_of_trans_of_irrefl later).has_min Set.univ ⟨⟨a, ha⟩, trivial⟩
  obtain ⟨b, hb, hstep⟩ := hnext last.1 last.2
  exact hlast ⟨b, hb⟩ trivial (.single hstep)

namespace Subgraph

variable {g : Subgraph} {a : Node} {next : List Node}

private theorem forward_sublist_keys (g : Subgraph) (a : Node) :
    (g.forward.getD a []).Sublist g.predecessors.keys := by
  rw [getD_forward, edges, List.filter_flatMap, List.map_flatMap, ← Std.TreeMap.map_fst_toList_eq_keys,
    ← List.flatMap_pure_eq_map]
  refine List.Sublist.flatMap_right _ fun entry _ => ?_
  obtain ⟨derived, preds⟩ := entry
  have hcount : preds.toList.count a ≤ 1 :=
    List.nodup_iff_count_le_one.mp (Node.sortedLT_toList preds).nodup a
  simp only [List.filter_map, Function.comp_def, List.filter_eq, List.map_replicate]
  exact (List.replicate_sublist_replicate derived).mpr hcount

private theorem sortedLT_forward (g : Subgraph) (a : Node) : (g.forward.getD a []).SortedLT :=
  ((Node.sortedLT_keys _).pairwise.sublist (g.forward_sublist_keys a)).sortedLT

theorem sortedLT_terminals (g : Subgraph) : g.terminals.SortedLT :=
  Ascending.filter (Node.sortedLT_keys g.predecessors) _

theorem forward_spec (h : g.forward[a]? = some next) :
    next.SortedLT ∧ ∀ b, b ∈ next ↔ g.Edge a b := by
  have hget : g.forward.getD a [] = next := by
    rw [Std.TreeMap.getD_eq_getD_getElem?, h, Option.getD_some]
  subst hget
  exact ⟨g.sortedLT_forward a, fun b => mem_forward⟩

theorem exists_cycle_of_terminals_eq_nil (hne : g.predecessors.keys ≠ []) (hnone : g.terminals = []) :
    ∃ n, TransGen g.Edge n n := by
  refine exists_transGen_self hne fun n hn => ?_
  by_contra! hlast
  have hterminal : n ∈ g.terminals :=
    mem_terminals.mpr ⟨Std.TreeMap.mem_keys.mp hn, fun b hb =>
      hlast b (Std.TreeMap.mem_keys.mpr (mem_predecessors_of_edge hb)) hb⟩
  rw [hnone] at hterminal
  exact List.not_mem_nil hterminal

end Subgraph

end LeakTrace
