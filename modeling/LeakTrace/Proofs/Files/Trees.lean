import LeakTrace.Files.Tree
import Mathlib.Data.List.Induction

namespace LeakTrace.FileTree

variable {t : FileTree} {p q d : Path}

theorem lookup?_insert (hp : p ≠ []) (t : FileTree) (e : Entry) (q : Path) :
    (FileTree.mk (t.entries.insert p e)).lookup? q = if q = p then some e else t.lookup? q := by
  rw [lookup?, lookup?, Std.TreeMap.getElem?_insert]
  by_cases hq : q = []
  · have hne : q ≠ p := fun heq => hp (heq ▸ hq)
    rw [if_pos hq, if_pos hq, if_neg hne]
  · simp only [if_neg hq, Std.LawfulEqCmp.compare_eq_iff_eq]
    by_cases heq : q = p
    · rw [if_pos heq.symm, if_pos heq]
    · rw [if_neg (Ne.symm heq), if_neg heq]

theorem lookup?_filter (hp : p ≠ []) (t : FileTree) (q : Path) :
    (FileTree.mk (t.entries.filter fun q _ => !p.isPrefixOf q)).lookup? q =
      if p <+: q then none else t.lookup? q := by
  have hfilter : (t.entries.filter fun q _ => !p.isPrefixOf q)[q]? =
      t.entries[q]?.filter fun _ => !p.isPrefixOf q := by
    simp [Std.TreeMap.getElem?_filter]
  rw [lookup?, lookup?, hfilter]
  by_cases hq : q = []
  · have hunder : ¬p <+: q := fun h => hp (List.prefix_nil.mp (hq ▸ h))
    rw [if_pos hq, if_pos hq, if_neg hunder]
  · rw [if_neg hq, if_neg hq]
    cases t.entries[q]? with
    | none => simp
    | some e =>
      by_cases hunder : p <+: q
      · simp [hunder]
      · have hout : p.isPrefixOf q = false :=
          Bool.eq_false_iff.mpr fun h => hunder (List.isPrefixOf_iff_prefix.mp h)
        simp [hunder, hout]

/-- What stands somewhere stands in a directory. -/
def IsTree (t : FileTree) : Prop :=
  ∀ p e, t.lookup? p = some e → t.lookup? p.dropLast = some .directory

instance (t : FileTree) : Decidable t.IsTree :=
  decidable_of_iff (∀ x ∈ t.entries.toList, t.lookup? x.1.dropLast = some .directory) <| by
    constructor
    · intro h p e hp
      by_cases hroot : p = []
      · rw [hroot]
        rfl
      · rw [lookup?, if_neg hroot] at hp
        exact h (p, e) (Std.TreeMap.mem_toList_iff_getElem?_eq_some.mpr hp)
    · rintro h ⟨p, e⟩ hmem
      by_cases hroot : p = []
      · rw [hroot]
        rfl
      · refine h p e ?_
        rw [lookup?, if_neg hroot]
        exact Std.TreeMap.mem_toList_iff_getElem?_eq_some.mp hmem

/-- Nothing stands below the directory. -/
def IsBare (t : FileTree) (d : Path) : Prop := ∀ rest, rest ≠ [] → t.lookup? (d ++ rest) = none

/-- In a tree, all that leads to an entry is a directory. -/
theorem IsTree.directory_above (h : t.IsTree) {rest : Path} (hrest : rest ≠ [])
    (hthere : t.lookup? (d ++ rest) ≠ none) : t.lookup? d = some .directory := by
  induction rest using List.reverseRecOn with
  | nil => exact absurd rfl hrest
  | append_singleton rest name ih =>
    obtain ⟨e, he⟩ := Option.ne_none_iff_exists'.mp hthere
    have hparent := h _ e he
    rw [← List.append_assoc, List.dropLast_concat] at hparent
    cases rest with
    | nil => rwa [List.append_nil] at hparent
    | cons first rest => exact ih (by simp) (by rw [hparent]; simp)

theorem IsTree.isBare (h : t.IsTree) (hd : t.lookup? d ≠ some .directory) : t.IsBare d := by
  intro rest hrest
  by_contra hthere
  exact hd (h.directory_above hrest hthere)

private theorem eq_append_of_listed {p rest : Path} {e e' : Entry}
    (h : (match Text.dropStart? d p with
      | some (name :: rest) => some (name :: rest, e)
      | _ => none) = some (rest, e')) : rest ≠ [] ∧ p = d ++ rest ∧ e = e' := by
  split at h
  · next name names hdrop =>
    obtain ⟨rfl, rfl⟩ : name :: names = rest ∧ e = e' := by simpa using h
    exact ⟨by simp, Text.dropStart?_eq_some.mp hdrop, rfl⟩
  · exact absurd h (by simp)

theorem mem_below {rest : Path} {e : Entry} :
    (rest, e) ∈ t.below d ↔ rest ≠ [] ∧ t.lookup? (d ++ rest) = some e := by
  rw [below, List.mem_filterMap]
  constructor
  · rintro ⟨⟨p, e'⟩, hmem, hlisted⟩
    obtain ⟨hrest, rfl, rfl⟩ := eq_append_of_listed hlisted
    rw [lookup?, if_neg (by simp [hrest])]
    exact ⟨hrest, Std.TreeMap.mem_toList_iff_getElem?_eq_some.mp hmem⟩
  · rintro ⟨hrest, hthere⟩
    rw [lookup?, if_neg (by simp [hrest])] at hthere
    refine ⟨(d ++ rest, e), Std.TreeMap.mem_toList_iff_getElem?_eq_some.mpr hthere, ?_⟩
    have hdrop : Text.dropStart? d (d ++ rest) = some rest := Text.dropStart?_eq_some.mpr rfl
    cases rest with
    | nil => exact absurd rfl hrest
    | cons name names => simp [hdrop]

theorem nodup_below (t : FileTree) (d : Path) : ((t.below d).map Prod.fst).Nodup := by
  rw [List.Nodup, List.pairwise_map, below]
  refine List.Pairwise.filterMap _ ?_ t.entries.distinct_keys_toList
  intro x y hne x' hx y' hy heq
  obtain ⟨-, hpx, -⟩ := eq_append_of_listed hx
  obtain ⟨-, hpy, -⟩ := eq_append_of_listed hy
  refine hne (Std.LawfulEqCmp.compare_eq_iff_eq.mpr ?_)
  rw [hpx, hpy, heq]

end LeakTrace.FileTree
