import LeakTrace.Node
import Mathlib.Data.List.Sort
import Mathlib.Order.Bounds.Basic

namespace LeakTrace

instance : PartialOrder Node where
  le a b := (compare a b).isLE = true
  lt a b := compare a b = .lt
  le_refl _ := Std.ReflCmp.isLE_rfl
  le_trans _ _ _ hab hbc := Std.TransCmp.isLE_trans hab hbc
  lt_iff_le_not_ge a b := by
    have hswap : compare b a = (compare a b).swap := Std.OrientedCmp.eq_swap
    rw [hswap]
    cases compare a b <;> simp
  le_antisymm _ _ hab hba := Std.LawfulEqCmp.eq_of_compare (Std.OrientedCmp.isLE_antisymm hab hba)

namespace Node

theorem sortedLT_keys {α : Type} (m : Std.TreeMap Node α) : m.keys.SortedLT :=
  Std.TreeMap.ordered_keys.sortedLT

theorem sortedLT_toList (s : Std.TreeSet Node) : s.toList.SortedLT :=
  Std.TreeSet.ordered_toList.sortedLT

end Node

namespace Ascending

variable {α : Type} [PartialOrder α] {l : List α} {a : α}

theorem filter (h : l.SortedLT) (p : α → Bool) : (l.filter p).SortedLT :=
  (h.pairwise.sublist List.filter_sublist).sortedLT

private theorem isLeast_cons (h : (a :: l).SortedLT) : IsLeast {b | b ∈ a :: l} a := by
  refine ⟨List.mem_cons_self, fun b hb => ?_⟩
  rcases List.mem_cons.mp hb with rfl | hb
  · exact le_rfl
  · exact (List.rel_of_pairwise_cons h.pairwise hb).le

private theorem isGreatest_concat (h : (l ++ [a]).SortedLT) : IsGreatest {b | b ∈ l ++ [a]} a := by
  refine ⟨List.mem_concat_self, fun b hb => ?_⟩
  rcases List.mem_append.mp hb with hb | hb
  · exact ((List.pairwise_append.mp h.pairwise).2.2 b hb a (List.mem_singleton_self a)).le
  · rw [List.mem_singleton.mp hb]

theorem head?_eq_some_iff (h : l.SortedLT) : l.head? = some a ↔ IsLeast {b | b ∈ l} a := by
  constructor
  · intro ha
    obtain ⟨l', rfl⟩ := List.head?_eq_some_iff.mp ha
    exact isLeast_cons h
  · intro ha
    obtain ⟨b, l', rfl⟩ := List.exists_cons_of_ne_nil (List.ne_nil_of_mem ha.1)
    rw [ha.unique (isLeast_cons h), List.head?_cons]

theorem getLast?_eq_some_iff (h : l.SortedLT) : l.getLast? = some a ↔ IsGreatest {b | b ∈ l} a := by
  constructor
  · intro ha
    obtain ⟨l', rfl⟩ := List.getLast?_eq_some_iff.mp ha
    exact isGreatest_concat h
  · intro ha
    obtain ⟨l', b, rfl⟩ := (List.eq_nil_or_concat' l).resolve_left (List.ne_nil_of_mem ha.1)
    rw [ha.unique (isGreatest_concat h), List.getLast?_concat]

theorem find?_eq_some_iff (h : l.SortedLT) {p : α → Bool} :
    l.find? p = some a ↔ IsLeast {b | b ∈ l ∧ p b = true} a := by
  rw [← List.head?_filter, head?_eq_some_iff (filter h p)]
  simp only [List.mem_filter]

end Ascending

end LeakTrace
