import LeakTrace.GraphSet
import Mathlib.Algebra.GroupWithZero.Nat
import Mathlib.Data.List.Basic
import Mathlib.Data.List.Induction

namespace LeakTrace

namespace GraphSet

inductive Operation
  | push (graph : GraphId) (f : Fragment)
  | insert (graph : GraphId) (lines : List Fragment)
  | remove (graph : GraphId)
  /-- All graphs are taken out, and collected in a new set. -/
  | recollect

def apply (s : GraphSet) : Operation → GraphSet
  | .push graph f => s.push graph f
  | .insert graph lines => s.insert graph lines
  | .remove graph => s.remove graph
  | .recollect => ofList s.entries

/-- The set that the operations make of the empty one. -/
def run (ops : List Operation) : GraphSet := ops.foldl apply empty

/-- What an operation leaves under one id where `held` was before. -/
def Operation.under (g : GraphId) (held : Option (List Fragment)) :
    Operation → Option (List Fragment)
  | .push graph f => if graph = g then some (held.getD [] ++ [f]) else held
  | .insert graph lines => if graph = g then some lines else held
  | .remove graph => if graph = g then none else held
  | .recollect => held

def heldAfter (ops : List Operation) (g : GraphId) : Option (List Fragment) :=
  ops.foldl (Operation.under g) none

/-- The id is registered for the last time by the operation after the first `n`: nothing is held
under it before, and something ever since. -/
structure RegisteredAt (ops : List Operation) (g : GraphId) (n : Nat) : Prop where
  absent : heldAfter (ops.take n) g = none
  held_since : ∀ m, n < m → (heldAfter (ops.take m) g).isSome = true

/-- The last registration of one id comes before that of another. -/
def RegisteredBefore (ops : List Operation) (a b : GraphId) : Prop :=
  ∃ m n, RegisteredAt ops a m ∧ RegisteredAt ops b n ∧ m < n

variable {ops : List Operation} {op : Operation} {a b g : GraphId} {m n : Nat}

theorem RegisteredAt.le (hm : RegisteredAt ops g m) (hn : RegisteredAt ops g n) : n ≤ m := by
  by_contra hlt
  have hsome := hm.held_since n (by omega)
  rw [hn.absent] at hsome
  exact absurd hsome (by simp)

theorem RegisteredAt.unique (hm : RegisteredAt ops g m) (hn : RegisteredAt ops g n) : m = n :=
  Nat.le_antisymm (hn.le hm) (hm.le hn)

theorem RegisteredBefore.ne (h : RegisteredBefore ops a b) : a ≠ b := by
  rintro rfl
  obtain ⟨m, n, hm, hn, hlt⟩ := h
  exact absurd (hm.unique hn) (by omega)

private theorem RegisteredAt.lt_length (h : RegisteredAt ops g n) : n < ops.length := by
  by_contra hge
  have hnone := h.absent
  have hsome := h.held_since (n + 1) (by omega)
  rw [List.take_of_length_le (by omega)] at hnone hsome
  rw [hnone] at hsome
  exact absurd hsome (by simp)

theorem RegisteredAt.concat (h : RegisteredAt ops g n)
    (hheld : (heldAfter (ops ++ [op]) g).isSome = true) : RegisteredAt (ops ++ [op]) g n := by
  have hn := h.lt_length
  refine ⟨?_, fun m hm => ?_⟩
  · rw [List.take_append_of_le_length (by omega)]
    exact h.absent
  · by_cases hle : m ≤ ops.length
    · rw [List.take_append_of_le_length hle]
      exact h.held_since m hm
    · rwa [List.take_of_length_le (by simp; omega)]

private theorem registeredAt_length (habsent : heldAfter ops g = none)
    (hheld : (heldAfter (ops ++ [op]) g).isSome = true) :
    RegisteredAt (ops ++ [op]) g ops.length := by
  refine ⟨?_, fun m hm => ?_⟩
  · rwa [List.take_left]
  · rwa [List.take_of_length_le (by simp; omega)]

private theorem exists_registeredAt (h : (heldAfter ops g).isSome = true) :
    ∃ n, RegisteredAt ops g n := by
  induction ops using List.reverseRecOn with
  | nil => exact absurd h (by simp [heldAfter])
  | append_singleton ops op ih =>
    by_cases hearlier : (heldAfter ops g).isSome = true
    · obtain ⟨n, hn⟩ := ih hearlier
      exact ⟨n, hn.concat h⟩
    · exact ⟨_, registeredAt_length (by simpa using hearlier) h⟩

theorem RegisteredBefore.concat (h : RegisteredBefore ops a b)
    (ha : (heldAfter (ops ++ [op]) a).isSome = true)
    (hb : (heldAfter (ops ++ [op]) b).isSome = true) : RegisteredBefore (ops ++ [op]) a b := by
  obtain ⟨m, n, hm, hn, hlt⟩ := h
  exact ⟨m, n, hm.concat ha, hn.concat hb, hlt⟩

private theorem registeredBefore_new (ha : (heldAfter ops a).isSome = true)
    (ha' : (heldAfter (ops ++ [op]) a).isSome = true) (hb : heldAfter ops b = none)
    (hb' : (heldAfter (ops ++ [op]) b).isSome = true) : RegisteredBefore (ops ++ [op]) a b := by
  obtain ⟨m, hm⟩ := exists_registeredAt ha
  exact ⟨m, ops.length, hm.concat ha', registeredAt_length hb hb', hm.lt_length⟩

private theorem entries_insert_of_not_mem {s : GraphSet} (h : g ∉ s.ids) (lines : List Fragment) :
    (s.insert g lines).entries = s.entries ++ [(g, lines)] :=
  update_of_not_mem h

private theorem entries_ofList {l : List (GraphId × List Fragment)} (h : (l.map Prod.fst).Nodup) :
    (ofList l).entries = l := by
  induction l using List.reverseRecOn with
  | nil => rfl
  | append_singleton l p ih =>
    rw [List.map_append, List.nodup_append] at h
    obtain ⟨hl, -, hnew⟩ := h
    have hids : p.1 ∉ (ofList l).ids := by
      rw [ids, ih hl]
      intro hp
      exact hnew _ hp _ List.mem_cons_self rfl
    have hconcat : ofList (l ++ [p]) = (ofList l).insert p.1 p.2 :=
      List.foldl_concat _ empty p l
    rw [hconcat, entries_insert_of_not_mem hids, ih hl]

theorem ofList_entries (s : GraphSet) : ofList s.entries = s := ext (entries_ofList s.nodup)

private theorem run_concat (ops : List Operation) (op : Operation) :
    run (ops ++ [op]) = (run ops).apply op := List.foldl_concat apply empty op ops

private theorem get?_apply (s : GraphSet) (op : Operation) (g : GraphId) :
    (s.apply op).get? g = op.under g (s.get? g) := by
  cases op with
  | push graph f =>
    rw [apply, get?_push, Operation.under]
    split
    · next h => rw [h]
    · rfl
  | insert graph lines => exact get?_insert s graph g lines
  | remove graph => exact get?_remove s graph g
  | recollect => rw [apply, ofList_entries, Operation.under]

private theorem get?_run (ops : List Operation) (g : GraphId) :
    (run ops).get? g = heldAfter ops g :=
  (List.foldl_hom (·.get? g) fun s op => (get?_apply s op g).symm).symm

private theorem mem_ids_run : g ∈ (run ops).ids ↔ (heldAfter ops g).isSome = true := by
  rw [← contains_iff_mem_ids, contains, get?_run]

private theorem ids_apply (s : GraphSet) (op : Operation) :
    (s.apply op).ids.Sublist s.ids ∨ ∃ g ∉ s.ids, (s.apply op).ids = s.ids ++ [g] := by
  have hregister (graph : GraphId) (s' : GraphSet)
      (hids : s'.ids = if graph ∈ s.ids then s.ids else s.ids ++ [graph]) :
      s'.ids.Sublist s.ids ∨ ∃ g ∉ s.ids, s'.ids = s.ids ++ [g] := by
    split at hids
    · exact .inl (hids ▸ List.Sublist.refl _)
    · next hnew => exact .inr ⟨graph, hnew, hids⟩
  cases op with
  | push graph f => exact hregister graph _ (ids_push s graph f)
  | insert graph lines => exact hregister graph _ (ids_insert s graph lines)
  | remove graph =>
    refine .inl ?_
    rw [apply, ids_remove]
    exact List.filter_sublist
  | recollect =>
    rw [apply, ofList_entries]
    exact .inl (List.Sublist.refl _)

/-- The ids stand in the order of their last registration. -/
theorem pairwise_ids_run (ops : List Operation) :
    (run ops).ids.Pairwise (RegisteredBefore ops) := by
  induction ops using List.reverseRecOn with
  | nil => exact List.Pairwise.nil
  | append_singleton ops op ih =>
    have hkept {l : List GraphId} (hl : ∀ g ∈ l, g ∈ (run (ops ++ [op])).ids)
        (hpairs : l.Pairwise (RegisteredBefore ops)) :
        l.Pairwise (RegisteredBefore (ops ++ [op])) :=
      hpairs.imp_of_mem fun ha hb h =>
        h.concat (mem_ids_run.mp (hl _ ha)) (mem_ids_run.mp (hl _ hb))
    rcases ids_apply (run ops) op with hsub | ⟨g, hnew, hids⟩
    · rw [← run_concat] at hsub
      exact hkept (fun _ => id) (ih.sublist hsub)
    · rw [← run_concat] at hids
      have hold : ∀ a ∈ (run ops).ids, a ∈ (run (ops ++ [op])).ids := fun a ha => by
        rw [hids]
        exact List.mem_append_left _ ha
      have hg : g ∈ (run (ops ++ [op])).ids := by simp [hids]
      have habsent : heldAfter ops g = none := by simpa [mem_ids_run] using hnew
      rw [hids, List.pairwise_append]
      refine ⟨hkept hold ih, List.pairwise_singleton _ g, fun a ha b hb => ?_⟩
      obtain rfl := List.mem_singleton.mp hb
      exact registeredBefore_new (mem_ids_run.mp ha) (mem_ids_run.mp (hold a ha)) habsent
        (mem_ids_run.mp hg)

-- What replaces a list keeps its place; what is removed and registered again stands last.
example (f : Fragment) :
    (run [.push 9 f, .push 2 f, .insert 9 []]).ids = [9, 2] ∧
      (run [.push 9 f, .push 2 f, .remove 9, .push 9 f]).ids = [2, 9] := ⟨rfl, rfl⟩

/-- The answers to all that can be asked of a graph set. -/
structure View where
  ids : List GraphId
  contains : GraphId → Bool
  get? : GraphId → Option (List Fragment)
  /-- The pairs that are shown one after another. -/
  iter : List (GraphId × List Fragment)
  /-- The pairs that are taken out one after another. -/
  drain : List (GraphId × List Fragment)
  size : Nat
  isEmpty : Bool
  fragmentCount : Nat

def view (s : GraphSet) : View where
  ids := s.ids
  contains := s.contains
  get? := s.get?
  iter := s.entries
  drain := s.entries
  size := s.size
  isEmpty := s.isEmpty
  fragmentCount := s.fragmentCount

/-- The answers are those of a list of pairs in the order in which their ids were registered. -/
structure View.Follows (v : View) (ops : List Operation) : Prop where
  nodup : v.ids.Nodup
  mem_ids : ∀ g, g ∈ v.ids ↔ v.contains g = true
  registered : v.ids.Pairwise (RegisteredBefore ops)
  get?_eq : ∀ g, v.get? g = heldAfter ops g
  contains_eq : ∀ g, v.contains g = (v.get? g).isSome
  /-- Each id comes once and in order, with what is held under it. -/
  iter_eq : v.iter.map (fun p => (p.1, some p.2)) = v.ids.map fun g => (g, v.get? g)
  drain_eq : v.drain = v.iter
  size_eq : v.size = v.ids.length
  isEmpty_iff : v.isEmpty = true ↔ v.ids = []
  fragmentCount_eq : v.fragmentCount = (v.ids.map fun g => ((v.get? g).getD []).length).sum

private theorem entries_get? (s : GraphSet) :
    s.entries.map (fun p => (p.1, some p.2)) = s.ids.map fun g => (g, s.get? g) := by
  rw [ids, List.map_map]
  refine List.map_congr_left fun p hp => ?_
  rw [Function.comp_apply, get?_eq_some_iff.mpr hp]

theorem fragmentCount_eq_sum (s : GraphSet) :
    s.fragmentCount = (s.entries.map fun p => p.2.length).sum := List.length_flatMap

theorem follows_run (ops : List Operation) : (run ops).view.Follows ops where
  nodup := (pairwise_ids_run ops).imp RegisteredBefore.ne
  mem_ids := fun _ => contains_iff_mem_ids.symm
  registered := pairwise_ids_run ops
  get?_eq := get?_run ops
  contains_eq := fun _ => rfl
  iter_eq := entries_get? (run ops)
  drain_eq := rfl
  size_eq := (List.length_map _).symm
  isEmpty_iff := by simp [view, isEmpty, ids]
  fragmentCount_eq := by
    have hsum := fragmentCount_eq_sum (run ops)
    rwa [entries_eq, List.map_map] at hsum

end GraphSet

end LeakTrace
