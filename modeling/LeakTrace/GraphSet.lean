import LeakTrace.Fragment

namespace LeakTrace

/-- Dumped graphs by their ids. Each id is listed once, in the order in which the ids were first
registered; an id that is removed and registered again stands last. -/
structure GraphSet where
  /-- Each id with its fragments. -/
  entries : List (GraphId × List Fragment)
  nodup : (entries.map Prod.fst).Nodup
deriving DecidableEq

namespace GraphSet

/-- Replaces the value of a key where it stands, or adds the pair at the end. -/
def update {α β : Type} [DecidableEq α] (key : α) (f : Option β → β) :
    List (α × β) → List (α × β)
  | [] => [(key, f none)]
  | (k, v) :: rest => if k = key then (k, f (some v)) :: rest else (k, v) :: update key f rest

private theorem mem_update_keys {α β : Type} [DecidableEq α] {key k : α} {f : Option β → β}
    {l : List (α × β)} :
    k ∈ (update key f l).map Prod.fst ↔ k ∈ l.map Prod.fst ∨ k = key := by
  induction l with
  | nil => simp [update]
  | cons p rest ih =>
    rw [update]
    split
    · next h => simp only [List.map_cons, List.mem_cons]; grind
    · next h => simp only [List.map_cons, List.mem_cons, ih]; grind

private theorem nodup_update_keys {α β : Type} [DecidableEq α] {key : α} {f : Option β → β}
    {l : List (α × β)} (h : (l.map Prod.fst).Nodup) : ((update key f l).map Prod.fst).Nodup := by
  induction l with
  | nil => simp [update]
  | cons p rest ih =>
    rw [update]
    split
    · simpa using h
    · next hk =>
      simp only [List.map_cons, List.nodup_cons] at h ⊢
      exact ⟨fun hm => (mem_update_keys.mp hm).elim h.1 hk, ih h.2⟩

theorem update_of_not_mem {α β : Type} [DecidableEq α] {key : α} {f : Option β → β}
    {l : List (α × β)} (h : key ∉ l.map Prod.fst) : update key f l = l ++ [(key, f none)] := by
  induction l with
  | nil => rfl
  | cons p rest ih =>
    rw [List.map_cons, List.mem_cons, not_or] at h
    rw [update, if_neg (Ne.symm h.1), ih h.2]
    rfl

private theorem update_keys_of_not_mem {α β : Type} [DecidableEq α] {key : α} {f : Option β → β}
    {l : List (α × β)} (h : key ∉ l.map Prod.fst) :
    (update key f l).map Prod.fst = l.map Prod.fst ++ [key] := by
  rw [update_of_not_mem h, List.map_append]
  rfl

private theorem update_keys_of_mem {α β : Type} [DecidableEq α] {key : α} {f : Option β → β}
    {l : List (α × β)} (h : key ∈ l.map Prod.fst) :
    (update key f l).map Prod.fst = l.map Prod.fst := by
  induction l with
  | nil => simp at h
  | cons p rest ih =>
    rw [update]
    split
    · rfl
    · next hk =>
      have hrest : key ∈ rest.map Prod.fst := by simpa [Ne.symm hk] using h
      simp [ih hrest]

private theorem keys_update {α β : Type} [DecidableEq α] {key : α} {f : Option β → β}
    {l : List (α × β)} :
    (update key f l).map Prod.fst =
      if key ∈ l.map Prod.fst then l.map Prod.fst else l.map Prod.fst ++ [key] := by
  split
  · next h => exact update_keys_of_mem h
  · next h => exact update_keys_of_not_mem h

def empty : GraphSet := ⟨[], by simp⟩

instance : Inhabited GraphSet := ⟨empty⟩

/-- Adds a fragment to the graph, which is registered if it is new. -/
def push (s : GraphSet) (graph : GraphId) (f : Fragment) : GraphSet :=
  ⟨update graph (fun lines => lines.getD [] ++ [f]) s.entries, nodup_update_keys s.nodup⟩

/-- Replaces all fragments of the graph, which is registered if it is new. -/
def insert (s : GraphSet) (graph : GraphId) (lines : List Fragment) : GraphSet :=
  ⟨update graph (fun _ => lines) s.entries, nodup_update_keys s.nodup⟩

def remove (s : GraphSet) (graph : GraphId) : GraphSet :=
  ⟨s.entries.filter (·.1 ≠ graph), s.nodup.sublist (List.filter_sublist.map _)⟩

def get? (s : GraphSet) (graph : GraphId) : Option (List Fragment) := s.entries.lookup graph

def contains (s : GraphSet) (graph : GraphId) : Bool := (s.get? graph).isSome

def ids (s : GraphSet) : List GraphId := s.entries.map Prod.fst

def size (s : GraphSet) : Nat := s.entries.length

def isEmpty (s : GraphSet) : Bool := s.entries.isEmpty

def fragmentCount (s : GraphSet) : Nat := (s.entries.flatMap Prod.snd).length

/-- Registers the pairs in order; a repeated id keeps its place and takes the later list. -/
def ofList (l : List (GraphId × List Fragment)) : GraphSet :=
  l.foldl (fun s p => s.insert p.1 p.2) empty

/-- Replaces every fragment list and keeps the ids. -/
def map (s : GraphSet) (f : List Fragment → List Fragment) : GraphSet :=
  ⟨s.entries.map fun p => (p.1, f p.2), by simpa [Function.comp_def] using s.nodup⟩

@[simp] theorem ids_map (s : GraphSet) (f : List Fragment → List Fragment) :
    (s.map f).ids = s.ids := by simp [map, ids]

theorem mem_ids_insert {s : GraphSet} {graph g : GraphId} {lines : List Fragment} :
    g ∈ (s.insert graph lines).ids ↔ g ∈ s.ids ∨ g = graph := mem_update_keys

theorem mem_ids_push {s : GraphSet} {graph g : GraphId} {f : Fragment} :
    g ∈ (s.push graph f).ids ↔ g ∈ s.ids ∨ g = graph := mem_update_keys

theorem ids_push (s : GraphSet) (graph : GraphId) (f : Fragment) :
    (s.push graph f).ids = if graph ∈ s.ids then s.ids else s.ids ++ [graph] := keys_update

theorem ids_insert (s : GraphSet) (graph : GraphId) (lines : List Fragment) :
    (s.insert graph lines).ids = if graph ∈ s.ids then s.ids else s.ids ++ [graph] := keys_update

theorem ids_remove (s : GraphSet) (graph : GraphId) :
    (s.remove graph).ids = s.ids.filter (· ≠ graph) := by
  rw [ids, ids, List.filter_map]
  rfl

theorem contains_iff_mem_ids {s : GraphSet} {g : GraphId} : s.contains g = true ↔ g ∈ s.ids := by
  simp only [contains, get?, ids]
  induction s.entries with
  | nil => simp
  | cons p rest ih =>
    rw [List.map_cons, List.mem_cons, ← ih, List.lookup_cons]
    by_cases h : g = p.1
    · simp [h]
    · have hb : (g == p.1) = false := by simpa using h
      simp only [hb, h, false_or]

@[ext] theorem ext {s s' : GraphSet} (h : s.entries = s'.entries) : s = s' := by
  cases s; cases s'
  cases h
  rfl

theorem get?_eq_some_iff {s : GraphSet} {g : GraphId} {lines : List Fragment} :
    s.get? g = some lines ↔ (g, lines) ∈ s.entries := by
  obtain ⟨entries, h⟩ := s
  simp only [get?]
  induction entries with
  | nil => simp
  | cons p rest ih =>
    rw [List.map_cons, List.nodup_cons] at h
    rw [List.lookup_cons, List.mem_cons]
    by_cases hg : g = p.1
    · subst hg
      have hrest : (p.1, lines) ∉ rest := fun hm => h.1 (List.mem_map.mpr ⟨_, hm, rfl⟩)
      simp [hrest, Prod.ext_iff, eq_comm]
    · have hb : (g == p.1) = false := by simpa using hg
      have hp : (g, lines) ≠ p := fun he => hg (congrArg Prod.fst he)
      simp only [hb, hp, false_or]
      exact ih h.2

/-- A graph set is its ids with what it holds for them. -/
theorem entries_eq (s : GraphSet) : s.entries = s.ids.map fun g => (g, (s.get? g).getD []) := by
  rw [ids, List.map_map]
  refine ((List.map_congr_left fun p hp => ?_).trans (List.map_id _)).symm
  rw [Function.comp_apply, get?_eq_some_iff.mpr hp]
  rfl

theorem get?_eq_none_iff {s : GraphSet} {g : GraphId} :
    s.get? g = none ↔ s.contains g = false := by
  simp [contains]

theorem contains_of_get? {s : GraphSet} {g : GraphId} {lines : List Fragment}
    (h : s.get? g = some lines) : s.contains g = true := by
  rw [contains, h]
  rfl

theorem mem_ids_of_get?_ne_none {s : GraphSet} {g : GraphId} (h : s.get? g ≠ none) : g ∈ s.ids :=
  contains_iff_mem_ids.mp (Option.isSome_iff_ne_none.mpr h)

theorem get?_remove (s : GraphSet) (graph g : GraphId) :
    (s.remove graph).get? g = if graph = g then none else s.get? g := by
  simp only [remove, get?]
  induction s.entries with
  | nil => simp
  | cons p rest ih =>
    by_cases hp : p.1 = graph
    · rw [List.filter_cons_of_neg (by simpa using hp), ih, List.lookup_cons]
      split
      · rfl
      · next hg =>
        have hb : (g == p.1) = false := by simpa [hp] using Ne.symm hg
        rw [hb]
    · rw [List.filter_cons_of_pos (by simpa using hp), List.lookup_cons, List.lookup_cons, ih]
      by_cases hg : g = p.1
      · subst hg
        simp [Ne.symm hp]
      · have hb : (g == p.1) = false := by simpa using hg
        rw [hb]

private theorem lookup_update {α β : Type} [DecidableEq α] (key k : α) (f : Option β → β)
    (l : List (α × β)) :
    (update key f l).lookup k = if key = k then some (f (l.lookup key)) else l.lookup k := by
  induction l with
  | nil =>
    by_cases hk : key = k
    · simp [update, hk]
    · simp [update, hk, Ne.symm hk]
  | cons p rest ih =>
    obtain ⟨k', v⟩ := p
    rw [update]
    by_cases hp : k' = key
    · subst hp
      by_cases hk : k' = k
      · subst hk
        simp
      · have hb : (k == k') = false := by simpa using Ne.symm hk
        simp [hk, hb, List.lookup_cons]
    · have hb : (key == k') = false := by simpa using Ne.symm hp
      rw [if_neg hp, List.lookup_cons, List.lookup_cons, List.lookup_cons, ih, hb]
      by_cases hk : key = k
      · subst hk
        simp [hb]
      · simp [hk]

theorem get?_push (s : GraphSet) (graph g : GraphId) (f : Fragment) :
    (s.push graph f).get? g = if graph = g then some ((s.get? graph).getD [] ++ [f]) else s.get? g :=
  lookup_update graph g _ s.entries

theorem get?_insert (s : GraphSet) (graph g : GraphId) (lines : List Fragment) :
    (s.insert graph lines).get? g = if graph = g then some lines else s.get? g :=
  lookup_update graph g _ s.entries

theorem get?_map (s : GraphSet) (f : List Fragment → List Fragment) (g : GraphId) :
    (s.map f).get? g = (s.get? g).map f := by
  simp only [map, get?]
  induction s.entries with
  | nil => rfl
  | cons p rest ih =>
    rw [List.map_cons, List.lookup_cons, List.lookup_cons]
    split
    · rfl
    · exact ih

end GraphSet

end LeakTrace
