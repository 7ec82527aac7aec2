import LeakTrace.Path.Ranking
import LeakTrace.Proofs.Fold

namespace LeakTrace.Ranking

theorem mem_insert {ranked : List LeakPath} {p q : LeakPath} (h : q ∈ insert ranked p) :
    q ∈ ranked ∨ q = p := by
  rw [insert] at h
  split at h
  · exact .inl h
  · rcases List.mem_append.mp h with h | h
    · exact .inl (List.takeWhile_subset _ h)
    · rcases List.mem_cons.mp h with rfl | h
      · exact .inr rfl
      · exact .inl (List.dropWhile_subset _ h)

private theorem mem_foldl_insert {paths ranked : List LeakPath} {q : LeakPath}
    (h : q ∈ paths.foldl insert ranked) : q ∈ ranked ∨ q ∈ paths := by
  have hfold := of_foldl (f := insert) (Q := fun ranked => q ∈ ranked) (fun _ _ => mem_insert) h
  exact hfold.imp_right (by simp)

theorem mem_of_mem_ranked {paths : List LeakPath} {q : LeakPath} (h : q ∈ paths.foldl insert []) :
    q ∈ paths :=
  (mem_foldl_insert h).resolve_left List.not_mem_nil

theorem firstOfEachStart_sublist (starts : List String) (paths : List LeakPath) :
    (firstOfEachStart starts paths).Sublist paths := by
  induction paths generalizing starts with
  | nil => exact .slnil
  | cons p paths ih =>
    rw [firstOfEachStart]
    split
    · exact (ih starts).cons_cons p
    · next start _ =>
      split
      · exact (ih starts).cons p
      · exact (ih (start :: starts)).cons_cons p

theorem dropDominated_sublist (earlier paths : List LeakPath) :
    (dropDominated earlier paths).Sublist paths := by
  induction paths generalizing earlier with
  | nil => exact .slnil
  | cons p paths ih =>
    rw [dropDominated]
    split
    · exact (ih (p :: earlier)).cons p
    · exact (ih (p :: earlier)).cons_cons p

theorem mem_of_mem_deduplicate {onePerStart : Bool} {paths : List LeakPath} {p : LeakPath}
    (h : p ∈ deduplicate onePerStart paths) : p ∈ paths := by
  have hkept := (dropDominated_sublist [] _).subset h
  have hranked : p ∈ paths.foldl insert [] := by
    split at hkept
    · exact (firstOfEachStart_sublist [] _).subset hkept
    · exact hkept
  exact mem_of_mem_ranked hranked

private theorem length_insert_le (ranked : List LeakPath) (p : LeakPath) :
    (insert ranked p).length ≤ ranked.length + 1 := by
  rw [insert]
  split
  · exact Nat.le_succ _
  · have hparts := congrArg List.length
      (List.takeWhile_append_dropWhile (p := fun kept => decide (kept.length ≤ p.length)) (l := ranked))
    rw [List.length_append] at hparts
    rw [List.length_append, List.length_cons]
    omega

private theorem length_foldl_insert_le (ranked paths : List LeakPath) :
    (paths.foldl insert ranked).length ≤ ranked.length + paths.length := by
  induction paths generalizing ranked with
  | nil => exact Nat.le_refl _
  | cons p paths ih =>
    have hfirst := length_insert_le ranked p
    have hrest := ih (insert ranked p)
    rw [List.foldl_cons, List.length_cons]
    omega

theorem length_deduplicate_le (onePerStart : Bool) (paths : List LeakPath) :
    (deduplicate onePerStart paths).length ≤ paths.length := by
  have hranked := length_foldl_insert_le [] paths
  rw [List.length_nil, Nat.zero_add] at hranked
  rw [deduplicate]
  refine Nat.le_trans (dropDominated_sublist [] _).length_le ?_
  split
  · exact Nat.le_trans (firstOfEachStart_sublist [] _).length_le hranked
  · exact hranked

end LeakTrace.Ranking
