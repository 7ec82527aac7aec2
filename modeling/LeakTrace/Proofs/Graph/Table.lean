import LeakTrace.Proofs.Graph.Registration
import Mathlib.Data.List.Nodup
import Std.Data.HashMap

namespace LeakTrace

open GraphSet (Operation)

/-- A graph set in two parts: the ids in order, and a table that finds the fragments of an id and knows
no order. -/
structure GraphTable where
  order : List GraphId
  held : Std.HashMap GraphId (List Fragment)

namespace GraphTable

def empty : GraphTable := ⟨[], ∅⟩

/-- Makes room for a graph. Whether the id is new is asked of the table. -/
def register (t : GraphTable) (graph : GraphId) : GraphTable where
  order := if t.held.contains graph then t.order else t.order ++ [graph]
  held := t.held.insertIfNew graph []

def push (t : GraphTable) (graph : GraphId) (f : Fragment) : GraphTable :=
  let t := t.register graph
  { t with held := t.held.modify graph (· ++ [f]) }

def insert (t : GraphTable) (graph : GraphId) (lines : List Fragment) : GraphTable :=
  let t := t.register graph
  { t with held := t.held.insert graph lines }

def remove (t : GraphTable) (graph : GraphId) : Option (List Fragment) × GraphTable :=
  match t.held[graph]? with
  | none => (none, t)
  | some lines => (some lines, ⟨t.order.filter (· ≠ graph), t.held.erase graph⟩)

def get? (t : GraphTable) (graph : GraphId) : Option (List Fragment) := t.held[graph]?

def iter (t : GraphTable) : List (GraphId × List Fragment) :=
  t.order.filterMap fun g => t.held[g]?.map (g, ·)

/-- Takes the graphs out of the table, in the given order. -/
def takeOut : List GraphId → Std.HashMap GraphId (List Fragment) → List (GraphId × List Fragment)
  | [], _ => []
  | g :: order, held =>
    match held[g]? with
    | none => takeOut order held
    | some lines => (g, lines) :: takeOut order (held.erase g)

def drain (t : GraphTable) : List (GraphId × List Fragment) := takeOut t.order t.held

def fragmentCount (t : GraphTable) : Nat := (t.held.toList.map fun p => p.2.length).sum

def ofList (l : List (GraphId × List Fragment)) : GraphTable :=
  l.foldl (fun t p => t.insert p.1 p.2) empty

def apply (t : GraphTable) : Operation → GraphTable
  | .push graph f => t.push graph f
  | .insert graph lines => t.insert graph lines
  | .remove graph => (t.remove graph).2
  | .recollect => ofList t.drain

def run (ops : List Operation) : GraphTable := ops.foldl apply empty

def view (t : GraphTable) : GraphSet.View where
  ids := t.order
  contains := t.held.contains
  get? := t.get?
  iter := t.iter
  drain := t.drain
  size := t.order.length
  isEmpty := t.order.isEmpty
  fragmentCount := t.fragmentCount

/-- The two parts agree with a graph set, and so with each other. -/
structure Represents (t : GraphTable) (s : GraphSet) : Prop where
  order : t.order = s.ids
  held : ∀ g, t.held[g]? = s.get? g

namespace Represents

variable {t : GraphTable} {s : GraphSet}

theorem empty : Represents GraphTable.empty GraphSet.empty :=
  ⟨rfl, fun _ => Std.HashMap.getElem?_empty⟩

theorem contains (h : Represents t s) (g : GraphId) : t.held.contains g = s.contains g := by
  rw [Std.HashMap.contains_eq_isSome_getElem?, h.held, GraphSet.contains]

private theorem order_register (h : Represents t s) (graph : GraphId) :
    (t.register graph).order = if graph ∈ s.ids then s.ids else s.ids ++ [graph] := by
  simp only [register, h.contains, h.order, GraphSet.contains_iff_mem_ids]

private theorem held_register (h : Represents t s) (graph g : GraphId) :
    (t.register graph).held[g]? =
      if graph = g then some ((s.get? graph).getD []) else s.get? g := by
  simp only [register, Std.HashMap.getElem?_insertIfNew, h.held, Std.HashMap.mem_iff_contains,
    h.contains, GraphSet.contains]
  by_cases hg : graph = g
  · subst hg
    cases hs : s.get? graph <;> simp
  · simp [hg]

theorem push (h : Represents t s) (graph : GraphId) (f : Fragment) :
    Represents (t.push graph f) (s.push graph f) where
  order := (h.order_register graph).trans (s.ids_push graph f).symm
  held g := by
    rw [GraphTable.push, Std.HashMap.getElem?_modify, h.held_register, h.held_register,
      GraphSet.get?_push]
    by_cases hg : graph = g <;> simp [hg]

theorem insert (h : Represents t s) (graph : GraphId) (lines : List Fragment) :
    Represents (t.insert graph lines) (s.insert graph lines) where
  order := (h.order_register graph).trans (s.ids_insert graph lines).symm
  held g := by
    rw [GraphTable.insert, Std.HashMap.getElem?_insert, h.held_register, GraphSet.get?_insert]
    by_cases hg : graph = g <;> simp [hg]

theorem remove (h : Represents t s) (graph : GraphId) :
    (t.remove graph).1 = s.get? graph ∧ Represents (t.remove graph).2 (s.remove graph) := by
  have hheld := h.held graph
  rw [GraphTable.remove]
  split
  · next hnone =>
    rw [hnone] at hheld
    have hnot : graph ∉ s.ids := by
      rw [← GraphSet.contains_iff_mem_ids, GraphSet.contains, ← hheld]
      simp
    refine ⟨hheld, ?_, fun g => ?_⟩
    · rw [h.order, GraphSet.ids_remove, List.filter_eq_self.mpr]
      intro g hg
      exact decide_eq_true fun heq => hnot (heq ▸ hg)
    · rw [h.held, GraphSet.get?_remove]
      split
      · next hg => rw [← hg, ← hheld]
      · rfl
  · next lines hsome =>
    refine ⟨hsome ▸ hheld, ?_, fun g => ?_⟩
    · rw [GraphSet.ids_remove, ← h.order]
    · rw [Std.HashMap.getElem?_erase, h.held, GraphSet.get?_remove]
      by_cases hg : graph = g <;> simp [hg]

theorem ofList (l : List (GraphId × List Fragment)) :
    Represents (GraphTable.ofList l) (GraphSet.ofList l) := by
  induction l using List.reverseRecOn with
  | nil => exact empty
  | append_singleton l p ih =>
    rw [GraphTable.ofList, GraphSet.ofList, List.foldl_concat, List.foldl_concat]
    exact ih.insert p.1 p.2

theorem iter (h : Represents t s) : t.iter = s.entries := by
  have hpair : ∀ p ∈ s.entries, t.held[p.1]?.map (p.1, ·) = some p := fun p hp => by
    rw [h.held, GraphSet.get?_eq_some_iff.mpr hp]
    rfl
  rw [GraphTable.iter, h.order, GraphSet.ids, List.filterMap_map]
  exact (List.filterMap_congr hpair).trans List.filterMap_some

private theorem takeOut_eq {order : List GraphId} (hnodup : order.Nodup)
    (held : Std.HashMap GraphId (List Fragment)) :
    takeOut order held = order.filterMap fun g => held[g]?.map (g, ·) := by
  induction order generalizing held with
  | nil => rfl
  | cons g order ih =>
    obtain ⟨hg, hrest⟩ := List.nodup_cons.mp hnodup
    rw [takeOut]
    cases hlines : held[g]? with
    | none =>
      rw [List.filterMap_cons, hlines]
      exact ih hrest held
    | some lines =>
      rw [List.filterMap_cons, hlines]
      refine congrArg ((g, lines) :: ·) ((ih hrest _).trans (List.filterMap_congr fun a ha => ?_))
      have hne : g ≠ a := fun heq => hg (heq ▸ ha)
      rw [Std.HashMap.getElem?_erase, if_neg (by simpa using hne)]

theorem drain (h : Represents t s) : t.drain = s.entries := by
  have hnodup : t.order.Nodup := h.order ▸ s.nodup
  exact (takeOut_eq hnodup t.held).trans h.iter

private theorem toList_perm (h : Represents t s) : t.held.toList.Perm s.entries := by
  have hpairs : t.held.toList.Nodup :=
    t.held.distinct_keys_toList.imp fun hkeys heq => by simp [heq] at hkeys
  refine (List.perm_ext_iff_of_nodup hpairs (List.Nodup.of_map Prod.fst s.nodup)).mpr fun p => ?_
  rw [Std.HashMap.mem_toList_iff_getElem?_eq_some, h.held, GraphSet.get?_eq_some_iff]

theorem fragmentCount (h : Represents t s) : t.fragmentCount = s.fragmentCount := by
  rw [GraphTable.fragmentCount, (h.toList_perm.map _).sum_nat, GraphSet.fragmentCount_eq_sum]

theorem view (h : Represents t s) : t.view = s.view := by
  have hsize : t.order.length = s.size := by
    rw [h.order]
    exact List.length_map _
  have hempty : t.order.isEmpty = s.isEmpty := by
    rw [h.order]
    exact List.isEmpty_map
  have hget : t.get? = s.get? := funext h.held
  rw [GraphTable.view, GraphSet.view, hsize, hempty, hget, funext h.contains, h.iter, h.drain,
    h.fragmentCount, h.order]

theorem apply (h : Represents t s) (op : Operation) : Represents (t.apply op) (s.apply op) := by
  cases op with
  | push graph f => exact h.push graph f
  | insert graph lines => exact h.insert graph lines
  | remove graph => exact (h.remove graph).2
  | recollect =>
    rw [GraphTable.apply, GraphSet.apply, h.drain]
    exact ofList s.entries

theorem run (ops : List Operation) : Represents (GraphTable.run ops) (GraphSet.run ops) := by
  induction ops using List.reverseRecOn with
  | nil => exact empty
  | append_singleton ops op ih =>
    rw [GraphTable.run, GraphSet.run, List.foldl_concat, List.foldl_concat]
    exact ih.apply op

end Represents

/-- After any operations, the two parts answer every question as the one list does, and that list
stands in the order of the last registrations. What is removed is handed out as it was held, and what
is taken out of either and collected again is the set that was there. -/
theorem answers_in_registration_order (ops : List Operation) :
    (run ops).view = (GraphSet.run ops).view ∧ (GraphSet.run ops).view.Follows ops ∧
      (∀ g, ((run ops).remove g).1 = (run ops).get? g) ∧
      (ofList (run ops).drain).view = (run ops).view ∧
      GraphSet.ofList (GraphSet.run ops).entries = GraphSet.run ops := by
  have hrun := Represents.run ops
  have hremoved (g : GraphId) : ((run ops).remove g).1 = (run ops).get? g :=
    (hrun.remove g).1.trans (hrun.held g).symm
  have hcollected : Represents (ofList (run ops).drain) (GraphSet.run ops) := by
    have hentries := Represents.ofList (GraphSet.run ops).entries
    rwa [GraphSet.ofList_entries, ← hrun.drain] at hentries
  exact ⟨hrun.view, GraphSet.follows_run ops, hremoved, hcollected.view.trans hrun.view.symm,
    GraphSet.ofList_entries _⟩

end GraphTable

end LeakTrace
