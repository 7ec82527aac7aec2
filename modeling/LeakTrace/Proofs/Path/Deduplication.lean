import LeakTrace.Proofs.Path.Ranking
import Mathlib.Data.List.TakeWhile

namespace LeakTrace.Ranking

/-- The paths stand by length, and no statement sequence stands twice. -/
structure Ranked (paths : List LeakPath) : Prop where
  sorted : paths.Pairwise fun p q => p.length ≤ q.length
  distinct : paths.Pairwise fun p q => p.statements ≠ q.statements

/-- Both paths have a first statement, and it is the same. -/
def SharesStart (p q : LeakPath) : Prop := ∃ start, p.start? = some start ∧ q.start? = some start

/-- None of the three rules has anything to change in the list. -/
structure Settled (onePerStart : Bool) (paths : List LeakPath) : Prop where
  ranked : Ranked paths
  starts : onePerStart = true → paths.Pairwise fun p q => ¬SharesStart p q
  undominated : paths.Pairwise fun earlier p => endsBefore p earlier = false

section inserted

variable {ranked kept : List LeakPath} {p : LeakPath}

private theorem ranked_nil : Ranked [] := ⟨.nil, .nil⟩

theorem Ranked.sublist (h : Ranked ranked) (hkept : kept.Sublist ranked) : Ranked kept :=
  ⟨h.sorted.sublist hkept, h.distinct.sublist hkept⟩

private theorem length_lt_of_mem_dropWhile (h : ranked.Pairwise fun p q => p.length ≤ q.length)
    {q : LeakPath} (hq : q ∈ ranked.dropWhile fun kept => decide (kept.length ≤ p.length)) :
    p.length < q.length := by
  induction ranked with
  | nil => exact absurd hq List.not_mem_nil
  | cons first ranked ih =>
    obtain ⟨hfirst, hrest⟩ := List.pairwise_cons.mp h
    rw [List.dropWhile_cons] at hq
    split at hq
    · exact ih hrest hq
    · next hlonger =>
      have hlt : p.length < first.length := by simpa using hlonger
      rcases List.mem_cons.mp hq with rfl | hq
      · exact hlt
      · exact Nat.lt_of_lt_of_le hlt (hfirst q hq)

/-- All that an insertion can do: it leaves the list where the statements of the path are there
already, and else puts the path between those that are not longer and those that are. -/
theorem insert_cases (h : Ranked ranked) (p : LeakPath) :
    (∃ q ∈ ranked, q.statements = p.statements ∧ insert ranked p = ranked) ∨
    ((∀ q ∈ ranked, q.statements ≠ p.statements) ∧
      ∃ before after, ranked = before ++ after ∧ insert ranked p = before ++ p :: after ∧
        (∀ q ∈ before, q.length ≤ p.length) ∧ ∀ q ∈ after, p.length < q.length) := by
  rw [insert]
  split
  · next hany =>
    obtain ⟨q, hq, hsame⟩ := List.any_eq_true.mp hany
    exact .inl ⟨q, hq, of_decide_eq_true hsame, rfl⟩
  · next hnone =>
    have hnew : ∀ q ∈ ranked, q.statements ≠ p.statements := by simpa using hnone
    refine .inr ⟨hnew, _, _, List.takeWhile_append_dropWhile.symm, rfl, fun q hq => ?_, fun q hq => ?_⟩
    · simpa using List.mem_takeWhile_imp hq
    · exact length_lt_of_mem_dropWhile h.sorted hq

theorem Ranked.insert (h : Ranked ranked) (p : LeakPath) : Ranked (Ranking.insert ranked p) := by
  rcases insert_cases h p with ⟨q, -, -, hsame⟩ | ⟨hnew, before, after, rfl, hinsert, hshort, hlong⟩
  · rw [hsame]
    exact h
  · obtain ⟨hbefore, hafter, hacross⟩ := List.pairwise_append.mp h.sorted
    rw [hinsert]
    constructor
    · refine List.pairwise_append.mpr ⟨hbefore, List.pairwise_cons.mpr ⟨?_, hafter⟩, ?_⟩
      · exact fun q hq => Nat.le_of_lt (hlong q hq)
      · exact fun q hq => List.forall_mem_cons.mpr ⟨hshort q hq, hacross q hq⟩
    · rw [List.pairwise_middle fun hne => hne.symm, List.pairwise_cons]
      exact ⟨fun q hq => (hnew q hq).symm, h.distinct⟩

theorem ranked_foldl_insert (paths : List LeakPath) : Ranked (paths.foldl Ranking.insert []) :=
  List.foldlRecOn paths Ranking.insert ranked_nil fun _ h p _ => h.insert p

private theorem insert_last (hnew : ∀ q ∈ ranked, q.statements ≠ p.statements)
    (hshort : ∀ q ∈ ranked, q.length ≤ p.length) : Ranking.insert ranked p = ranked ++ [p] := by
  have hany : (ranked.any fun q => decide (q.statements = p.statements)) = false := by
    simpa using hnew
  have hall : ∀ q ∈ ranked, decide (q.length ≤ p.length) = true := by simpa using hshort
  simp only [Ranking.insert, hany, Bool.false_eq_true, if_false]
  rw [List.takeWhile_eq_self_iff.mpr hall, List.dropWhile_eq_nil_iff.mpr hall]

/-- Paths that are ranked already are inserted one behind the other. -/
theorem foldl_insert_of_ranked (h : Ranked (ranked ++ kept)) :
    kept.foldl Ranking.insert ranked = ranked ++ kept := by
  induction kept generalizing ranked with
  | nil => exact (List.append_nil ranked).symm
  | cons p kept ih =>
    obtain ⟨-, -, hsorted⟩ := List.pairwise_append.mp h.sorted
    obtain ⟨-, -, hdistinct⟩ := List.pairwise_append.mp h.distinct
    have hlast : Ranking.insert ranked p = ranked ++ [p] :=
      insert_last (fun q hq => hdistinct q hq p List.mem_cons_self)
        fun q hq => hsorted q hq p List.mem_cons_self
    rw [List.append_cons] at h ⊢
    rw [List.foldl_cons, hlast]
    exact ih h

end inserted

section starts

variable {starts : List String} {paths : List LeakPath} {p : LeakPath}

theorem start?_of_mem_firstOfEachStart (h : p ∈ firstOfEachStart starts paths) :
    ∀ start ∈ starts, p.start? ≠ some start := by
  fun_induction firstOfEachStart starts paths with
  | case1 starts => exact absurd h List.not_mem_nil
  | case2 starts q paths hnone ih =>
    rcases List.mem_cons.mp h with rfl | h
    · simp [hnone]
    · exact ih h
  | case3 starts q paths start hstart hmem ih => exact ih h
  | case4 starts q paths start hstart hmem ih =>
    rcases List.mem_cons.mp h with rfl | h
    · rintro other hother heq
      obtain rfl : start = other := Option.some.inj (hstart.symm.trans heq)
      exact hmem hother
    · exact fun other hother => ih h other (List.mem_cons_of_mem start hother)

theorem pairwise_firstOfEachStart (starts : List String) (paths : List LeakPath) :
    (firstOfEachStart starts paths).Pairwise fun p q => ¬SharesStart p q := by
  fun_induction firstOfEachStart starts paths with
  | case1 starts => exact .nil
  | case2 starts p paths hnone ih =>
    refine List.pairwise_cons.mpr ⟨?_, ih⟩
    rintro q - ⟨start, hp, -⟩
    exact absurd (hnone.symm.trans hp) (by simp)
  | case3 starts p paths start hstart hmem ih => exact ih
  | case4 starts p paths start hstart hmem ih =>
    refine List.pairwise_cons.mpr ⟨?_, ih⟩
    rintro q hq ⟨other, hp, hother⟩
    obtain rfl : start = other := Option.some.inj (hstart.symm.trans hp)
    exact start?_of_mem_firstOfEachStart hq start List.mem_cons_self hother

private theorem firstOfEachStart_of_pairwise (h : paths.Pairwise fun p q => ¬SharesStart p q)
    (hstarts : ∀ p ∈ paths, ∀ start ∈ starts, p.start? ≠ some start) :
    firstOfEachStart starts paths = paths := by
  fun_induction firstOfEachStart starts paths with
  | case1 starts => rfl
  | case2 starts p paths hnone ih =>
    rw [ih h.of_cons fun q hq => hstarts q (List.mem_cons_of_mem p hq)]
  | case3 starts p paths start hstart hmem ih =>
    exact absurd hstart (hstarts p List.mem_cons_self start hmem)
  | case4 starts p paths start hstart hmem ih =>
    obtain ⟨hfirst, hrest⟩ := List.pairwise_cons.mp h
    rw [ih hrest]
    intro q hq
    refine List.forall_mem_cons.mpr ⟨fun hother => ?_, hstarts q (List.mem_cons_of_mem p hq)⟩
    exact hfirst q hq ⟨start, hstart, hother⟩

end starts

section dominated

variable {earlier paths : List LeakPath} {p : LeakPath}

private theorem endsBefore_of_mem_dropDominated (h : p ∈ dropDominated earlier paths) :
    ∀ e ∈ earlier, endsBefore p e = false := by
  fun_induction dropDominated earlier paths with
  | case1 earlier => exact absurd h List.not_mem_nil
  | case2 earlier q paths hany ih => exact fun e he => ih h e (List.mem_cons_of_mem q he)
  | case3 earlier q paths hnone ih =>
    rcases List.mem_cons.mp h with rfl | h
    · simpa using hnone
    · exact fun e he => ih h e (List.mem_cons_of_mem q he)

private theorem pairwise_dropDominated (earlier paths : List LeakPath) :
    (dropDominated earlier paths).Pairwise fun e p => endsBefore p e = false := by
  fun_induction dropDominated earlier paths with
  | case1 earlier => exact .nil
  | case2 earlier p paths hany ih => exact ih
  | case3 earlier p paths hnone ih =>
    refine List.pairwise_cons.mpr ⟨fun q hq => ?_, ih⟩
    exact endsBefore_of_mem_dropDominated hq p List.mem_cons_self

theorem dropDominated_of_pairwise (h : paths.Pairwise fun e p => endsBefore p e = false)
    (hearlier : ∀ p ∈ paths, ∀ e ∈ earlier, endsBefore p e = false) :
    dropDominated earlier paths = paths := by
  fun_induction dropDominated earlier paths with
  | case1 earlier => rfl
  | case2 earlier p paths hany ih =>
    obtain ⟨e, he, hends⟩ := List.any_eq_true.mp hany
    exact absurd hends (by simp [hearlier p List.mem_cons_self e he])
  | case3 earlier p paths hnone ih =>
    obtain ⟨hfirst, hrest⟩ := List.pairwise_cons.mp h
    rw [ih hrest]
    intro q hq
    exact List.forall_mem_cons.mpr ⟨hfirst q hq, hearlier q (List.mem_cons_of_mem p hq)⟩

end dominated

theorem settled_deduplicate (onePerStart : Bool) (paths : List LeakPath) :
    Settled onePerStart (deduplicate onePerStart paths) := by
  have hranked := ranked_foldl_insert paths
  have hkept := dropDominated_sublist []
    (if onePerStart then firstOfEachStart [] (paths.foldl insert []) else paths.foldl insert [])
  refine ⟨?_, fun hone => ?_, pairwise_dropDominated [] _⟩
  · refine hranked.sublist (hkept.trans ?_)
    split
    · exact firstOfEachStart_sublist [] _
    · exact .refl _
  · rw [deduplicate, if_pos hone]
    rw [if_pos hone] at hkept
    exact (pairwise_firstOfEachStart [] _).sublist hkept

private theorem deduplicate_of_settled {onePerStart : Bool} {paths : List LeakPath}
    (h : Settled onePerStart paths) : deduplicate onePerStart paths = paths := by
  have hranked : paths.foldl insert [] = paths := foldl_insert_of_ranked h.ranked
  have hstarts : (if onePerStart then firstOfEachStart [] paths else paths) = paths := by
    split
    · next hone => exact firstOfEachStart_of_pairwise (h.starts hone) (by simp)
    · rfl
  simp only [deduplicate, hranked, hstarts]
  exact dropDominated_of_pairwise h.undominated (by simp)

/-- To rank what was ranked changes nothing, neither the paths nor their order. -/
theorem deduplicate_deduplicate (onePerStart : Bool) (paths : List LeakPath) :
    deduplicate onePerStart (deduplicate onePerStart paths) = deduplicate onePerStart paths :=
  deduplicate_of_settled (settled_deduplicate onePerStart paths)

end LeakTrace.Ranking
