import LeakTrace.Proofs.Path.Deduplication
import Mathlib.Data.List.MinMax

namespace LeakTrace

namespace LeakPath

def startsWith (start : String) (p : LeakPath) : Bool := p.start? = some start

/-- The first statement of the path is that of its source. -/
def StartsAtSource (p : LeakPath) : Prop := p.start? = some p.source.statement

theorem startsWith_iff {start : String} {p : LeakPath} :
    p.startsWith start = true ↔ p.start? = some start := by
  simp [startsWith]

theorem StartsAtSource.startsWith_iff {start : String} {p : LeakPath} (h : p.StartsAtSource) :
    p.startsWith start = true ↔ p.source.statement = start := by
  rw [LeakPath.startsWith_iff, h, Option.some_inj]

private theorem startsWith_congr {p q : LeakPath} (h : p.statements = q.statements)
    (start : String) :
    p.startsWith start = q.startsWith start := by
  rw [Bool.eq_iff_iff, LeakPath.startsWith_iff, LeakPath.startsWith_iff, start?, start?, h]

private theorem length_congr {p q : LeakPath} (h : p.statements = q.statements) :
    p.length = q.length := by
  have hlength : ∀ r : LeakPath, r.statements.length = r.length := fun r => List.length_map _
  rw [← hlength, h, hlength]

end LeakPath

namespace Ranking

open LeakPath

variable {start : String} {ranked paths earlier : List LeakPath} {starts : List String}

private theorem Ranked.length_le_of_find? {test : LeakPath → Bool} {best q : LeakPath}
    (h : Ranked ranked)
    (hbest : ranked.find? test = some best) (hq : q ∈ ranked) (htest : test q = true) :
    best.length ≤ q.length := by
  obtain ⟨-, before, after, rfl, hbefore⟩ := List.find?_eq_some_iff_append.mp hbest
  obtain ⟨-, hrest, -⟩ := List.pairwise_append.mp h.sorted
  rcases List.mem_append.mp hq with hq | hq
  · exact absurd htest (by simpa using hbefore q hq)
  · rcases List.mem_cons.mp hq with rfl | hq
    · exact Nat.le_refl _
    · exact (List.pairwise_cons.mp hrest).1 q hq

private theorem find?_insert (h : Ranked ranked) (start : String) (p : LeakPath) :
    (insert ranked p).find? (startsWith start) =
      if p.startsWith start then
        match ranked.find? (startsWith start) with
        | none => some p
        | some best => if p.length < best.length then some p else some best
      else ranked.find? (startsWith start) := by
  rcases insert_cases h p with ⟨q, hq, hsame, heq⟩ | ⟨-, before, after, rfl, heq, hshort, hlong⟩
  · rw [heq]
    split
    · next hp =>
      have hqstart : q.startsWith start = true := (startsWith_congr hsame start).trans hp
      have hlength : q.length = p.length := length_congr hsame
      cases hbest : ranked.find? (startsWith start) with
      | none => exact absurd hqstart (List.find?_eq_none.mp hbest q hq)
      | some best =>
        have hle := h.length_le_of_find? hbest hq hqstart
        show some best = if p.length < best.length then some p else some best
        rw [if_neg (by omega)]
    · rfl
  · rw [heq, List.find?_append, List.find?_append, List.find?_cons]
    cases hp : p.startsWith start with
    | false => simp
    | true =>
      cases hbefore : before.find? (startsWith start) with
      | some best =>
        have hle := hshort best (List.mem_of_find?_eq_some hbefore)
        simp [Nat.not_lt.mpr hle]
      | none =>
        cases hafter : after.find? (startsWith start) with
        | none => simp
        | some best =>
          have hlt := hlong best (List.mem_of_find?_eq_some hafter)
          simp [hlt]

/-- The best path of a start is the earliest of the shortest. -/
theorem find?_foldl_insert (start : String) (paths : List LeakPath) :
    (paths.foldl insert []).find? (startsWith start) =
      (paths.filter (startsWith start)).argmin LeakPath.length := by
  induction paths using List.reverseRecOn with
  | nil => rfl
  | append_singleton paths p ih =>
    rw [List.foldl_concat, find?_insert (ranked_foldl_insert paths), ih, List.filter_append]
    cases hp : p.startsWith start with
    | false => simp [hp]
    | true =>
      rw [List.filter_cons_of_pos hp, List.filter_nil, List.argmin_concat, if_pos rfl]
      cases (paths.filter (startsWith start)).argmin LeakPath.length with
      | none => rfl
      | some best => rfl

private theorem filter_firstOfEachStart_of_mem (h : start ∈ starts) :
    (firstOfEachStart starts paths).filter (startsWith start) = [] := by
  refine List.filter_eq_nil_iff.mpr fun p hp => ?_
  rw [startsWith_iff]
  exact start?_of_mem_firstOfEachStart hp start h

private theorem filter_firstOfEachStart (h : start ∉ starts) :
    (firstOfEachStart starts paths).filter (startsWith start) =
      (paths.find? (startsWith start)).toList := by
  fun_induction firstOfEachStart starts paths with
  | case1 starts => rfl
  | case2 starts p paths hnone ih =>
    have hp : ¬p.startsWith start = true := by simp [startsWith_iff, hnone]
    rw [List.filter_cons_of_neg hp, List.find?_cons_of_neg hp, ih h]
  | case3 starts p paths other hother hmem ih =>
    have hp : ¬p.startsWith start = true := by
      rw [startsWith_iff, hother, Option.some_inj]
      rintro rfl
      exact h hmem
    rw [List.find?_cons_of_neg hp, ih h]
  | case4 starts p paths other hother hmem ih =>
    by_cases hsame : other = start
    · subst hsame
      have hp : p.startsWith other = true := startsWith_iff.mpr hother
      rw [List.filter_cons_of_pos hp, List.find?_cons_of_pos hp,
        filter_firstOfEachStart_of_mem List.mem_cons_self]
      rfl
    · have hp : ¬p.startsWith start = true := by
        rw [startsWith_iff, hother, Option.some_inj]
        exact hsame
      rw [List.filter_cons_of_neg hp, List.find?_cons_of_neg hp, ih]
      exact List.not_mem_cons_of_ne_of_not_mem (Ne.symm hsame) h

private theorem source_eq_of_endsBefore {p e : LeakPath} (h : endsBefore p e = true) :
    e.source = p.source := by
  simp only [endsBefore, Bool.and_eq_true, decide_eq_true_eq] at h
  exact h.1

/-- Paths of different starts have different sources, so none of them dominates another. -/
theorem deduplicate_true (h : ∀ p ∈ paths, p.StartsAtSource) :
    deduplicate true paths = firstOfEachStart [] (paths.foldl insert []) := by
  have hkept : ∀ p ∈ firstOfEachStart [] (paths.foldl insert []), p.StartsAtSource := by
    intro p hp
    have hranked := (firstOfEachStart_sublist [] _).subset hp
    exact h p (mem_of_mem_ranked hranked)
  refine dropDominated_of_pairwise ?_ (by simp)
  refine (pairwise_firstOfEachStart [] _).imp_of_mem fun {e p} he hp hshares => ?_
  by_contra hends
  have hsource := source_eq_of_endsBefore (Bool.not_eq_false _ ▸ hends)
  exact hshares ⟨p.source.statement, hsource ▸ hkept e he, hkept p hp⟩

theorem filter_deduplicate_true (h : ∀ p ∈ paths, p.StartsAtSource) (start : String) :
    (deduplicate true paths).filter (startsWith start) =
      ((paths.filter (startsWith start)).argmin LeakPath.length).toList := by
  rw [deduplicate_true h, filter_firstOfEachStart List.not_mem_nil, find?_foldl_insert]

/-- A path is kept for its start before anything from its source can dominate it. -/
theorem firstOfEachStart_sublist_dropDominated
    (hearlier : ∀ e ∈ earlier, e.source.statement ∈ starts) (h : ∀ p ∈ paths, p.StartsAtSource) :
    (firstOfEachStart starts paths).Sublist (dropDominated earlier paths) := by
  induction paths generalizing starts earlier with
  | nil => exact .slnil
  | cons p paths ih =>
    obtain ⟨hstart, hrest⟩ := List.forall_mem_cons.mp h
    rw [firstOfEachStart, hstart, dropDominated]
    by_cases hmem : p.source.statement ∈ starts
    · have hkept := ih (List.forall_mem_cons.mpr ⟨hmem, hearlier⟩) hrest
      simp only [if_pos hmem]
      split
      · exact hkept
      · exact hkept.cons p
    · have hends : ¬(earlier.any (endsBefore p)) = true := by
        rw [List.any_eq_true]
        rintro ⟨e, he, hends⟩
        exact hmem (source_eq_of_endsBefore hends ▸ hearlier e he)
      simp only [if_neg hmem, if_neg hends]
      refine (ih (List.forall_mem_cons.mpr ⟨List.mem_cons_self, ?_⟩) hrest).cons_cons p
      exact fun e he => List.mem_cons_of_mem _ (hearlier e he)

/-- The paths that are kept one for each start are reported also where all are wanted. -/
theorem deduplicate_true_sublist (h : ∀ p ∈ paths, p.StartsAtSource) :
    (deduplicate true paths).Sublist (deduplicate false paths) := by
  rw [deduplicate_true h]
  exact firstOfEachStart_sublist_dropDominated (by simp) fun p hp => h p (mem_of_mem_ranked hp)

end Ranking

end LeakTrace
