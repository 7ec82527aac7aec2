import LeakTrace.Proofs.Path.Deduplication
import Mathlib.Data.List.Basic
import Mathlib.Data.List.Induction

namespace LeakTrace.Ranking

/-- The paths that no path before them in the list rules out. -/
def keepUnless (rulesOut : LeakPath → LeakPath → Bool) (paths : List LeakPath) : List LeakPath :=
  (paths.zipIdx.filter fun (p, i) => !(paths.take i).any (rulesOut · p)).map Prod.fst

/-- The paths that no kept path before them rules out. -/
def keepUnlessKept (rulesOut : LeakPath → LeakPath → Bool) (paths : List LeakPath) : List LeakPath :=
  paths.foldl (fun kept p => if kept.any (rulesOut · p) then kept else kept ++ [p]) []

def sameSequence (e p : LeakPath) : Bool := e.statements = p.statements

def sameStart (e p : LeakPath) : Bool := e.start?.isSome && e.start? = p.start?

/-- Both paths come from one source, and the first ends strictly later. -/
def outlasts (e p : LeakPath) : Bool := e.source = p.source && p.sink.time < e.sink.time

def notLonger (p q : LeakPath) : Bool := p.length ≤ q.length

/-- The first path of each statement sequence, stably by length, and of these the first of each start
if only that is wanted. -/
def rankedByRules (onePerStart : Bool) (paths : List LeakPath) : List LeakPath :=
  let ranked := (keepUnless sameSequence paths).mergeSort notLonger
  if onePerStart then keepUnless sameStart ranked else ranked

section keeping

variable {rulesOut : LeakPath → LeakPath → Bool} {paths : List LeakPath} {p : LeakPath}

private theorem keepUnless_concat (rulesOut : LeakPath → LeakPath → Bool) (paths : List LeakPath)
    (p : LeakPath) :
    keepUnless rulesOut (paths ++ [p]) =
      keepUnless rulesOut paths ++ if paths.any (rulesOut · p) then [] else [p] := by
  have hearlier : ∀ entry ∈ paths.zipIdx,
      (!((paths ++ [p]).take entry.2).any (rulesOut · entry.1)) =
        !(paths.take entry.2).any (rulesOut · entry.1) := by
    intro entry hentry
    have hlt : entry.2 < paths.length := (List.mem_zipIdx' hentry).1
    rw [List.take_append_of_le_length (Nat.le_of_lt hlt)]
  rw [keepUnless, List.zipIdx_append, List.filter_append, List.map_append,
    List.filter_congr hearlier, keepUnless]
  cases hany : paths.any (rulesOut · p) with
  | false => simp [hany]
  | true => simp [hany]

/-- A function that decides on each path by those before it keeps the paths that these do not rule
out. -/
theorem eq_keepUnless {f : List LeakPath → List LeakPath} (hnil : f [] = [])
    (hconcat : ∀ paths p, f (paths ++ [p]) = f paths ++ if paths.any (rulesOut · p) then [] else [p])
    (paths : List LeakPath) : f paths = keepUnless rulesOut paths := by
  induction paths using List.reverseRecOn with
  | nil => exact hnil
  | append_singleton paths p ih => rw [hconcat, keepUnless_concat, ih]

private theorem mem_of_mem_keepUnless (h : p ∈ keepUnless rulesOut paths) : p ∈ paths := by
  obtain ⟨⟨q, i⟩, hentry, rfl⟩ := List.mem_map.mp h
  exact List.fst_mem_of_mem_zipIdx (List.mem_filter.mp hentry).1

/-- What is ruled out at all is ruled out by a kept path. -/
theorem kept_or_ruledOut (htrans : ∀ a b c, rulesOut a b = true → rulesOut b c = true →
      rulesOut a c = true) (h : p ∈ paths) :
    p ∈ keepUnless rulesOut paths ∨ ∃ e ∈ keepUnless rulesOut paths, rulesOut e p = true := by
  induction paths using List.reverseRecOn generalizing p with
  | nil => exact absurd h List.not_mem_nil
  | append_singleton paths q ih =>
    rw [keepUnless_concat]
    rcases List.mem_append.mp h with h | h
    · refine (ih h).imp (List.mem_append_left _) ?_
      rintro ⟨e, he, hout⟩
      exact ⟨e, List.mem_append_left _ he, hout⟩
    · obtain rfl := List.mem_singleton.mp h
      by_cases hany : paths.any (rulesOut · p) = true
      · obtain ⟨b, hb, hout⟩ := List.any_eq_true.mp hany
        rcases ih hb with hb | ⟨e, he, hb⟩
        · exact .inr ⟨b, List.mem_append_left _ hb, hout⟩
        · exact .inr ⟨e, List.mem_append_left _ he, htrans e b p hb hout⟩
      · exact .inl (by simp [hany])

private theorem keepUnlessKept_eq (htrans : ∀ a b c, rulesOut a b = true → rulesOut b c = true →
      rulesOut a c = true) (paths : List LeakPath) :
    keepUnlessKept rulesOut paths = keepUnless rulesOut paths := by
  induction paths using List.reverseRecOn with
  | nil => rfl
  | append_singleton paths p ih =>
    have hstep : keepUnlessKept rulesOut (paths ++ [p]) =
        if (keepUnless rulesOut paths).any (rulesOut · p) then keepUnless rulesOut paths
        else keepUnless rulesOut paths ++ [p] := by
      rw [← ih, keepUnlessKept, List.foldl_concat]
      rfl
    have hany : (keepUnless rulesOut paths).any (rulesOut · p) = paths.any (rulesOut · p) := by
      rw [Bool.eq_iff_iff, List.any_eq_true, List.any_eq_true]
      constructor
      · rintro ⟨e, he, hout⟩
        exact ⟨e, mem_of_mem_keepUnless he, hout⟩
      · rintro ⟨b, hb, hout⟩
        rcases kept_or_ruledOut htrans hb with hb | ⟨e, he, hb⟩
        · exact ⟨b, hb, hout⟩
        · exact ⟨e, he, htrans e b p hb hout⟩
    rw [hstep, hany, keepUnless_concat]
    split
    · rw [List.append_nil]
    · rfl

end keeping

section rules

variable {starts : List String} {paths : List LeakPath} {p q : LeakPath}

private theorem any_mem_cons {start : String} (hstart : q.start? = some start) :
    p.start?.any (· ∈ start :: starts) = (sameStart q p || p.start?.any (· ∈ starts)) := by
  cases hp : p.start? with
  | none => simp [sameStart, hstart, hp]
  | some other => simp [sameStart, hstart, hp, eq_comm]

private theorem firstOfEachStart_concat (starts : List String) (paths : List LeakPath)
    (p : LeakPath) :
    firstOfEachStart starts (paths ++ [p]) = firstOfEachStart starts paths ++
      if p.start?.any (· ∈ starts) || paths.any (sameStart · p) then [] else [p] := by
  fun_induction firstOfEachStart starts paths with
  | case1 starts =>
    rw [List.nil_append, firstOfEachStart]
    cases hp : p.start? with
    | none => simp [firstOfEachStart]
    | some start => simp [firstOfEachStart]
  | case2 starts q paths hnone ih =>
    have hq : sameStart q p = false := by simp [sameStart, hnone]
    rw [List.cons_append, firstOfEachStart, hnone, ih, List.any_cons, hq, Bool.false_or]
    rfl
  | case3 starts q paths start hstart hmem ih =>
    have hseen : p.start?.any (· ∈ starts) = (sameStart q p || p.start?.any (· ∈ starts)) := by
      rw [← any_mem_cons hstart]
      cases p.start? with
      | none => rfl
      | some other =>
        have hiff : other ∈ starts ↔ other ∈ start :: starts := by
          rw [List.mem_cons, iff_or_self]
          rintro rfl
          exact hmem
        exact decide_eq_decide.mpr hiff
    rw [List.cons_append, firstOfEachStart, hstart]
    simp only [if_pos hmem]
    rw [ih, List.any_cons, Bool.or_left_comm, ← Bool.or_assoc, ← hseen]
  | case4 starts q paths start hstart hmem ih =>
    rw [List.cons_append, firstOfEachStart, hstart]
    simp only [if_neg hmem]
    rw [ih, any_mem_cons hstart, List.any_cons, Bool.or_left_comm, ← Bool.or_assoc, List.cons_append]

private theorem dropDominated_concat (earlier paths : List LeakPath) (p : LeakPath) :
    dropDominated earlier (paths ++ [p]) = dropDominated earlier paths ++
      if earlier.any (outlasts · p) || paths.any (outlasts · p) then [] else [p] := by
  have hends : ∀ l : List LeakPath, l.any (endsBefore p) = l.any (outlasts · p) := fun _ => rfl
  fun_induction dropDominated earlier paths with
  | case1 earlier => simp [dropDominated, hends]
  | case2 earlier q paths hany ih =>
    rw [List.cons_append, dropDominated, if_pos hany, ih, List.any_cons, List.any_cons,
      Bool.or_left_comm, Bool.or_assoc]
  | case3 earlier q paths hnone ih =>
    rw [List.cons_append, dropDominated, if_neg hnone, ih, List.any_cons, List.any_cons,
      Bool.or_left_comm, Bool.or_assoc]
    rfl

private theorem firstOfEachStart_eq (paths : List LeakPath) :
    firstOfEachStart [] paths = keepUnless sameStart paths := by
  refine eq_keepUnless rfl (fun paths p => ?_) paths
  rw [firstOfEachStart_concat]
  cases p.start? with
  | none => rfl
  | some start => rfl

private theorem dropDominated_eq (paths : List LeakPath) :
    dropDominated [] paths = keepUnless outlasts paths :=
  eq_keepUnless rfl (fun paths p => dropDominated_concat [] paths p) paths

end rules

section sorting

variable {paths ranked sorted : List LeakPath} {p q : LeakPath}

private theorem notLonger_trans (a b c : LeakPath) (hab : notLonger a b = true)
    (hbc : notLonger b c = true) :
    notLonger a c = true := by
  simp only [notLonger, decide_eq_true_eq] at hab hbc ⊢
  omega

private theorem notLonger_total (a b : LeakPath) : (notLonger a b || notLonger b a) = true := by
  simp only [notLonger, Bool.or_eq_true, decide_eq_true_eq]
  omega

private theorem length_le_of_mem_cons (h : (p :: ranked).Pairwise fun p q => p.length ≤ q.length)
    (hq : q ∈ p :: ranked) : p.length ≤ q.length := by
  rcases List.mem_cons.mp hq with rfl | hq
  · exact Nat.le_refl _
  · exact List.rel_of_pairwise_cons h hq

private theorem eq_of_filter_length (hranked : ranked.Pairwise fun p q => p.length ≤ q.length)
    (hsorted : sorted.Pairwise fun p q => p.length ≤ q.length)
    (h : ∀ n, ranked.filter (·.length = n) = sorted.filter (·.length = n)) : ranked = sorted := by
  induction ranked generalizing sorted with
  | nil =>
    cases sorted with
    | nil => rfl
    | cons q sorted => exact absurd (h q.length) (by simp)
  | cons p ranked ih =>
    have hmem : ∀ q, q ∈ p :: ranked ↔ q ∈ sorted := by
      intro q
      have hlength := congrArg (q ∈ ·) (h q.length)
      simpa using hlength
    cases sorted with
    | nil => exact absurd ((hmem p).mp List.mem_cons_self) List.not_mem_nil
    | cons q sorted =>
      have hle : p.length ≤ q.length :=
        length_le_of_mem_cons hranked ((hmem q).mpr List.mem_cons_self)
      have hge : q.length ≤ p.length :=
        length_le_of_mem_cons hsorted ((hmem p).mp List.mem_cons_self)
      have hlength : q.length = p.length := Nat.le_antisymm hge hle
      -- both lists begin with the first path of this length
      have hfirst := h p.length
      rw [List.filter_cons_of_pos (by simp), List.filter_cons_of_pos (by simp [hlength])] at hfirst
      obtain ⟨rfl, -⟩ := List.cons.inj hfirst
      have hrest : ∀ n, ranked.filter (·.length = n) = sorted.filter (·.length = n) := by
        intro n
        have hn := h n
        by_cases hpn : p.length = n
        · rw [List.filter_cons_of_pos (by simp [hpn]), List.filter_cons_of_pos (by simp [hpn])] at hn
          exact (List.cons.inj hn).2
        · rwa [List.filter_cons_of_neg (by simp [hpn]), List.filter_cons_of_neg (by simp [hpn])] at hn
      rw [ih hranked.of_cons hsorted.of_cons hrest]

private theorem pairwise_mergeSort_notLonger (paths : List LeakPath) :
    (paths.mergeSort notLonger).Pairwise fun p q => p.length ≤ q.length := by
  have hsorted := List.pairwise_mergeSort notLonger_trans notLonger_total paths
  exact hsorted.imp fun h => of_decide_eq_true h

private theorem filter_length_mergeSort (paths : List LeakPath) (n : Nat) :
    (paths.mergeSort notLonger).filter (·.length = n) = paths.filter (·.length = n) := by
  have hsame : (paths.filter (·.length = n)).Pairwise fun p q => notLonger p q = true := by
    refine List.pairwise_of_forall_mem_list fun p hp q hq => ?_
    obtain ⟨-, hp⟩ := List.mem_filter.mp hp
    obtain ⟨-, hq⟩ := List.mem_filter.mp hq
    simp only [decide_eq_true_eq] at hp hq
    simp [notLonger, hp, hq]
  have hkept : (paths.filter (·.length = n)).Sublist (paths.mergeSort notLonger) :=
    List.sublist_mergeSort notLonger_trans notLonger_total hsame List.filter_sublist
  have hfiltered := hkept.filter (·.length = n)
  rw [List.filter_filter] at hfiltered
  simp only [Bool.and_self] at hfiltered
  have hperm := (List.mergeSort_perm paths notLonger).filter (·.length = n)
  exact (hfiltered.eq_of_length hperm.length_eq.symm).symm

private theorem exists_ranked_of_mem (h : p ∈ paths) :
    ∃ q ∈ paths.foldl insert [], q.statements = p.statements := by
  induction paths using List.reverseRecOn with
  | nil => exact absurd h List.not_mem_nil
  | append_singleton paths last ih =>
    rw [List.foldl_concat]
    rcases insert_cases (ranked_foldl_insert paths) last with
      ⟨q, hq, hsame, heq⟩ | ⟨-, before, after, hranked, heq, -, -⟩
    · rw [heq]
      rcases List.mem_append.mp h with h | h
      · exact ih h
      · rw [List.mem_singleton.mp h]
        exact ⟨q, hq, hsame⟩
    · rw [heq]
      rcases List.mem_append.mp h with h | h
      · obtain ⟨q, hq, hsame⟩ := ih h
        rw [hranked] at hq
        exact ⟨q, List.mem_append.mpr ((List.mem_append.mp hq).imp_right (List.mem_cons_of_mem last)),
          hsame⟩
      · rw [List.mem_singleton.mp h]
        exact ⟨last, List.mem_append_right before List.mem_cons_self, rfl⟩

private theorem filter_length_foldl_insert (paths : List LeakPath) (n : Nat) :
    (paths.foldl insert []).filter (·.length = n) =
      (keepUnless sameSequence paths).filter (·.length = n) := by
  induction paths using List.reverseRecOn with
  | nil => rfl
  | append_singleton paths p ih =>
    rw [List.foldl_concat, keepUnless_concat, List.filter_append, ← ih]
    rcases insert_cases (ranked_foldl_insert paths) p with
      ⟨q, hq, hsame, heq⟩ | ⟨hnew, before, after, hranked, heq, -, hlong⟩
    · have hany : paths.any (sameSequence · p) = true :=
        List.any_eq_true.mpr ⟨q, mem_of_mem_ranked hq, decide_eq_true hsame⟩
      rw [heq, hany, if_pos rfl, List.filter_nil, List.append_nil]
    · have hany : paths.any (sameSequence · p) = false := by
        rw [List.any_eq_false]
        intro q hq hsame
        obtain ⟨k, hk, hkq⟩ := exists_ranked_of_mem hq
        exact hnew k hk (hkq.trans (of_decide_eq_true hsame))
      rw [heq, hany, hranked, List.filter_append, List.filter_append, List.append_assoc]
      congr 1
      by_cases hn : p.length = n
      · have hafter : after.filter (·.length = n) = [] := by
          refine List.filter_eq_nil_iff.mpr fun q hq => ?_
          have hlt := hlong q hq
          simp only [decide_eq_true_eq]
          omega
        rw [List.filter_cons_of_pos (by simp [hn]), hafter]
        simp [hn]
      · rw [List.filter_cons_of_neg (by simp [hn])]
        simp [hn]

private theorem foldl_insert_eq (paths : List LeakPath) :
    paths.foldl insert [] = (keepUnless sameSequence paths).mergeSort notLonger := by
  refine eq_of_filter_length (ranked_foldl_insert paths).sorted (pairwise_mergeSort_notLonger _) ?_
  intro n
  rw [filter_length_foldl_insert, filter_length_mergeSort]

end sorting

private theorem outlasts_trans (a b c : LeakPath) (hab : outlasts a b = true)
    (hbc : outlasts b c = true) :
    outlasts a c = true := by
  simp only [outlasts, Bool.and_eq_true, decide_eq_true_eq] at hab hbc ⊢
  exact ⟨hab.1.trans hbc.1, Int64.lt_trans hbc.2 hab.2⟩

/-- The reported paths are those that the rules leave one after the other, whether a path that was
itself outlasted still counts against later ones or not. So the sinks of the paths from one source
never go back in time. -/
theorem deduplicate_eq_rules (onePerStart : Bool) (paths : List LeakPath) :
    deduplicate onePerStart paths = keepUnless outlasts (rankedByRules onePerStart paths) ∧
      deduplicate onePerStart paths = keepUnlessKept outlasts (rankedByRules onePerStart paths) ∧
      (deduplicate onePerStart paths).Pairwise fun p q =>
        p.source = q.source → p.sink.time ≤ q.sink.time := by
  have hrules : deduplicate onePerStart paths =
      keepUnless outlasts (rankedByRules onePerStart paths) := by
    rw [deduplicate, dropDominated_eq, rankedByRules, foldl_insert_eq, firstOfEachStart_eq]
  refine ⟨hrules, ?_, ?_⟩
  · rw [hrules, keepUnlessKept_eq outlasts_trans]
  · refine (settled_deduplicate onePerStart paths).undominated.imp fun {p q} hends hsource => ?_
    simp only [endsBefore, hsource, decide_true, Bool.true_and, decide_eq_false_iff_not] at hends
    exact Int64.not_lt.mp hends

end LeakTrace.Ranking
