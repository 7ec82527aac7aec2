import LeakTrace.Graph.Closure
import Mathlib.Data.List.Nodup
import Mathlib.Order.Bounds.Defs

namespace LeakTrace

/-- The set holds the lines and, with each fragment, what is known about its predecessors. -/
structure FragmentCache.Completes (cache : FragmentCache) (lines : List Fragment)
    (s : Set Fragment) : Prop where
  lines_mem : ∀ f ∈ lines, f ∈ s
  cached_mem : ∀ f ∈ s, ∀ p ∈ f.predecessors, ∀ c, cache.get? p = some c → c ∈ s

/-- Each fragment that is not one of the lines stands behind one that has its node as a
predecessor. -/
def Introduced (lines closed : List Fragment) : Prop :=
  ∀ before f after, closed = before ++ f :: after → f ∉ lines →
    ∃ g ∈ before, f.node ∈ g.predecessors

private theorem introduced_nil (lines : List Fragment) : Introduced lines [] := by
  intro before f after h
  simp at h

private theorem introduced_concat {lines closed : List Fragment} {f : Fragment}
    (h : Introduced lines closed) (hf : f ∉ lines → ∃ g ∈ closed, f.node ∈ g.predecessors) :
    Introduced lines (closed ++ [f]) := by
  intro before g after hs hg
  rcases List.eq_nil_or_concat after with rfl | ⟨after, last, rfl⟩
  · obtain ⟨hbefore, hlast⟩ := List.append_inj' hs rfl
    obtain rfl : f = g := List.singleton_inj.mp hlast
    exact hbefore ▸ hf hg
  · rw [List.concat_eq_append, ← List.cons_append, ← List.append_assoc] at hs
    exact h before g after (List.append_inj' hs rfl).1 hg

namespace FragmentCache

/-- Every entry stands under its own node. -/
def Keyed (cache : FragmentCache) : Prop := ∀ n f, cache.get? n = some f → f.node = n

private theorem keyed_empty : empty.Keyed := by
  intro n f h
  simp at h

theorem Keyed.record {cache : FragmentCache} (h : cache.Keyed) (f : Fragment) :
    (cache.record f).Keyed := by
  intro n g hg
  rw [get?_record] at hg
  split at hg
  · next hn =>
    obtain rfl : f = g := by simpa using hg
    exact hn
  · exact h n g hg

theorem keyed_ofList (fs : List Fragment) : (ofList fs).Keyed :=
  List.foldlRecOn fs record keyed_empty fun _ h f _ => h.record f

end FragmentCache

/-- What holds while a graph is closed: whatever the cache knows about a predecessor of a closed
fragment is closed too, unless that predecessor is still queued. -/
structure Closing (cache : FragmentCache) (lines : List Fragment) (unread : FragmentCache)
    (queue : List Node) (closed : List Fragment) : Prop where
  nodup : closed.Nodup
  least : ∀ s, cache.Completes lines s → ∀ f ∈ closed, f ∈ s
  introduced : Introduced lines closed
  queued : ∀ n ∈ queue, ∃ f ∈ closed, n ∈ f.predecessors
  unread_known : ∀ n c, unread.get? n = some c → cache.get? n = some c
  read : ∀ n c, cache.get? n = some c → unread.get? n = some c ∨ c ∈ closed
  resolved : ∀ f ∈ closed, ∀ p ∈ f.predecessors,
    p ∈ queue ∨ ∀ c, cache.get? p = some c → c ∈ closed

namespace Closing

variable {cache unread : FragmentCache} {lines closed : List Fragment} {n : Node}
  {queue : List Node} {f : Fragment}

theorem start (cache : FragmentCache) (lines : List Fragment) : Closing cache lines cache [] [] where
  nodup := List.nodup_nil
  least := by simp
  introduced := introduced_nil lines
  queued := by simp
  unread_known := fun _ _ h => h
  read := fun _ _ h => .inl h
  resolved := by simp

/-- A queued node of which all is closed can be dropped from the queue. -/
theorem drop (h : Closing cache lines unread (n :: queue) closed)
    (hn : ∀ c, cache.get? n = some c → c ∈ closed) : Closing cache lines unread queue closed where
  nodup := h.nodup
  least := h.least
  introduced := h.introduced
  queued := fun m hm => h.queued m (List.mem_cons_of_mem n hm)
  unread_known := h.unread_known
  read := h.read
  resolved := by
    intro g hg p hp
    rcases h.resolved g hg p hp with hq | hc
    · rcases List.mem_cons.mp hq with rfl | hq
      · exact .inr hn
      · exact .inl hq
    · exact .inr hc

/-- An entry of which the fragment is closed need not be read again. -/
theorem erase (h : Closing cache lines unread queue closed) (hn : unread.get? n = some f)
    (hf : f ∈ closed) : Closing cache lines (unread.erase n) queue closed where
  nodup := h.nodup
  least := h.least
  introduced := h.introduced
  queued := h.queued
  unread_known := by
    intro m c hm
    rw [FragmentCache.get?_erase] at hm
    split at hm
    · exact absurd hm (by simp)
    · exact h.unread_known m c hm
  read := by
    intro m c hm
    by_cases hnm : n = m
    · subst hnm
      have hc : c = f := Option.some.inj (hm.symm.trans (h.unread_known n f hn))
      exact .inr (hc ▸ hf)
    · rw [FragmentCache.get?_erase, if_neg hnm]
      exact h.read m c hm
  resolved := h.resolved

/-- A new fragment is closed when its predecessors are queued behind the others. -/
theorem add (h : Closing cache lines unread queue closed) (hf : f ∉ closed)
    (hleast : ∀ s, cache.Completes lines s → f ∈ s)
    (hintro : f ∉ lines → ∃ g ∈ closed, f.node ∈ g.predecessors) :
    Closing cache lines unread (queue ++ f.predecessors) (closed ++ [f]) where
  nodup := by
    rw [← List.concat_eq_append]
    exact List.Nodup.concat hf h.nodup
  least := by
    intro s hs g hg
    rcases List.mem_append.mp hg with hg | hg
    · exact h.least s hs g hg
    · rw [List.mem_singleton.mp hg]
      exact hleast s hs
  introduced := introduced_concat h.introduced hintro
  queued := by
    intro m hm
    rcases List.mem_append.mp hm with hm | hm
    · obtain ⟨g, hg, hp⟩ := h.queued m hm
      exact ⟨g, List.mem_append_left _ hg, hp⟩
    · exact ⟨f, List.mem_append_right _ (List.mem_singleton_self f), hm⟩
  unread_known := h.unread_known
  read := fun m c hm => (h.read m c hm).imp_right (List.mem_append_left _)
  resolved := by
    intro g hg p hp
    rcases List.mem_append.mp hg with hg | hg
    · rcases h.resolved g hg p hp with hq | hc
      · exact .inl (List.mem_append_left _ hq)
      · exact .inr fun c hpc => List.mem_append_left _ (hc c hpc)
    · rw [List.mem_singleton.mp hg] at hp
      exact .inl (List.mem_append_right _ hp)

/-- A queue is worked off: at the end nothing is queued. -/
theorem pull (hkeyed : cache.Keyed) (h : Closing cache lines unread queue closed) :
    Closing cache lines (LeakTrace.pull unread queue closed).1 []
      (LeakTrace.pull unread queue closed).2 := by
  fun_induction LeakTrace.pull unread queue closed with
  | case1 unread closed => exact h
  | case2 unread closed n queue hn ih =>
    refine ih (h.drop fun c hc => ?_)
    rcases h.read n c hc with hu | hm
    · exact absurd (hn.symm.trans hu) (by simp)
    · exact hm
  | case3 unread closed n queue f hn hf ih =>
    have hc : ∀ c, cache.get? n = some c → c ∈ closed := by
      intro c hc
      have heq : c = f := Option.some.inj (hc.symm.trans (h.unread_known n f hn))
      exact heq ▸ hf
    exact ih ((h.drop hc).erase hn hf)
  | case4 unread closed n queue f hn hf ih =>
    have hcache : cache.get? n = some f := h.unread_known n f hn
    obtain ⟨g, hg, hp⟩ := h.queued n (List.mem_cons_self ..)
    have hnode : f.node = n := hkeyed n f hcache
    have hadd : Closing cache lines unread (n :: queue ++ f.predecessors) (closed ++ [f]) :=
      h.add hf (fun s hs => hs.cached_mem g (h.least s hs g hg) n hp f hcache)
        fun _ => ⟨g, hg, hnode ▸ hp⟩
    have hmem : f ∈ closed ++ [f] := List.mem_append_right _ (List.mem_singleton_self f)
    have hc : ∀ c, cache.get? n = some c → c ∈ closed ++ [f] := by
      intro c hc
      have heq : c = f := Option.some.inj (hc.symm.trans hcache)
      exact heq ▸ hmem
    exact ih ((hadd.drop hc).erase hn hmem)

end Closing

theorem GraphSet.entries_close (graphs : GraphSet) (cache : FragmentCache) :
    (graphs.close cache).entries = graphs.entries.map fun p => (p.1, closeGraph cache p.2) := rfl

private theorem pull_cons (unread : FragmentCache) (n : Node) (queue : List Node)
    (closed : List Fragment) :
    pull unread (n :: queue) closed =
      match unread.get? n with
      | none => pull unread queue closed
      | some f =>
        if f ∈ closed then pull (unread.erase n) queue closed
        else pull (unread.erase n) (queue ++ f.predecessors) (closed ++ [f]) := by
  rw [pull]
  split
  · next hn => simp only [hn]
  · next f hn => simp only [hn]

private theorem pull_of_unknown {unread : FragmentCache} {queue : List Node}
    {closed : List Fragment}
    (h : ∀ n ∈ queue, unread.get? n = none) : pull unread queue closed = (unread, closed) := by
  induction queue with
  | nil => rw [pull]
  | cons n queue ih =>
    rw [pull_cons, h n List.mem_cons_self]
    exact ih fun m hm => h m (List.mem_cons_of_mem n hm)

private theorem pull_of_known {unread : FragmentCache} {n : Node} {queue : List Node}
    {closed : List Fragment} {f : Fragment} (hn : unread.get? n = some f) (hf : f ∉ closed) :
    pull unread (n :: queue) closed =
      pull (unread.erase n) (queue ++ f.predecessors) (closed ++ [f]) := by
  rw [pull_cons, hn]
  exact if_neg hf

private theorem pull_prefix (unread : FragmentCache) (queue : List Node) (closed : List Fragment) :
    closed <+: (pull unread queue closed).2 := by
  fun_induction pull unread queue closed with
  | case1 unread closed => exact List.prefix_refl closed
  | case2 unread closed n queue hn ih => exact ih
  | case3 unread closed n queue f hn hf ih => exact ih
  | case4 unread closed n queue f hn hf ih => exact (List.prefix_append closed [f]).trans ih

/-- What one line adds: nothing if it is there already, else the line and what is pulled in for it. -/
theorem closeLine_cases (state : FragmentCache × List Fragment) (line : Fragment) :
    (line ∈ state.2 ∧ closeLine state line = state) ∨
    (line ∉ state.2 ∧ closeLine state line = pull state.1 line.predecessors (state.2 ++ [line]) ∧
      ∃ pulled, (closeLine state line).2 = state.2 ++ line :: pulled) := by
  by_cases hmem : line ∈ state.2
  · exact .inl ⟨hmem, if_pos hmem⟩
  · have hpull : closeLine state line = pull state.1 line.predecessors (state.2 ++ [line]) :=
      if_neg hmem
    obtain ⟨pulled, hpulled⟩ := pull_prefix state.1 line.predecessors (state.2 ++ [line])
    rw [← hpull, List.append_assoc, List.singleton_append] at hpulled
    exact .inr ⟨hmem, hpull, pulled, hpulled.symm⟩

theorem closeLine_of_unknown {cache : FragmentCache} {closed : List Fragment} {line : Fragment}
    (hnew : line ∉ closed) (h : ∀ n ∈ line.predecessors, cache.get? n = none) :
    closeLine (cache, closed) line = (cache, closed ++ [line]) := by
  rw [closeLine, if_neg hnew]
  exact pull_of_unknown h

theorem closeLine_of_known {cache : FragmentCache} {closed : List Fragment} {line f : Fragment}
    (hnew : line ∉ closed) (hleft : cache.get? line.left = some f) (hf : f ∉ closed ++ [line])
    (h : ∀ n ∈ line.right.toList ++ f.predecessors, (cache.erase line.left).get? n = none) :
    closeLine (cache, closed) line = (cache.erase line.left, closed ++ [line] ++ [f]) := by
  rw [closeLine, if_neg hnew]
  exact (pull_of_known hleft hf).trans (pull_of_unknown h)

theorem closeGraph_of_unknown {cache : FragmentCache} {line : Fragment}
    (h : ∀ n ∈ line.predecessors, cache.get? n = none) : closeGraph cache [line] = [line] := by
  rw [closeGraph, List.foldl_cons, List.foldl_nil, closeLine_of_unknown List.not_mem_nil h]
  rfl

private theorem subset_closeLine (state : FragmentCache × List Fragment) (line : Fragment) :
    line :: state.2 ⊆ (closeLine state line).2 := by
  rcases closeLine_cases state line with ⟨hmem, heq⟩ | ⟨-, -, pulled, hadded⟩
  · rw [heq]
    exact List.cons_subset.mpr ⟨hmem, List.Subset.refl _⟩
  · rw [hadded]
    exact List.cons_subset.mpr ⟨by simp, List.subset_append_left _ _⟩

theorem subset_foldl_closeLine (state : FragmentCache × List Fragment) (rest : List Fragment) :
    state.2 ++ rest ⊆ (rest.foldl closeLine state).2 := by
  induction rest generalizing state with
  | nil => simp
  | cons line rest ih =>
    obtain ⟨hline, hstate⟩ := List.cons_subset.mp (subset_closeLine state line)
    obtain ⟨hnext, hrest⟩ := List.append_subset.mp (ih (closeLine state line))
    exact List.append_subset.mpr
      ⟨List.Subset.trans hstate hnext, List.cons_subset.mpr ⟨hnext hline, hrest⟩⟩

private theorem closing_closeLine {cache : FragmentCache} {lines : List Fragment}
    {state : FragmentCache × List Fragment} {line : Fragment} (hkeyed : cache.Keyed)
    (h : Closing cache lines state.1 [] state.2) (hline : line ∈ lines) :
    Closing cache lines (closeLine state line).1 [] (closeLine state line).2 := by
  rcases closeLine_cases state line with ⟨-, heq⟩ | ⟨hmem, heq, -⟩
  · rw [heq]
    exact h
  · rw [heq]
    have hadd : Closing cache lines state.1 ([] ++ line.predecessors) (state.2 ++ [line]) :=
      h.add hmem (fun s hs => hs.lines_mem line hline) fun hn => absurd hline hn
    exact hadd.pull hkeyed

private theorem closing_foldl_closeLine {cache : FragmentCache} {lines : List Fragment}
    (hkeyed : cache.Keyed) (rest : List Fragment) (hrest : rest ⊆ lines)
    (state : FragmentCache × List Fragment) (h : Closing cache lines state.1 [] state.2) :
    (∀ f ∈ state.2 ++ rest, f ∈ (rest.foldl closeLine state).2) ∧
      Closing cache lines (rest.foldl closeLine state).1 [] (rest.foldl closeLine state).2 := by
  refine ⟨fun f hf => subset_foldl_closeLine state rest hf, ?_⟩
  exact List.foldlRecOn (motive := fun next => Closing cache lines next.1 [] next.2) rest closeLine h
    fun _ hnext _ hline => closing_closeLine hkeyed hnext (hrest hline)

/-- A closed graph holds its own lines, and nothing of it is queued any more. -/
theorem closing_closeGraph {cache : FragmentCache} (hkeyed : cache.Keyed) (lines : List Fragment) :
    lines ⊆ closeGraph cache lines ∧
      ∃ unread, Closing cache lines unread [] (closeGraph cache lines) := by
  obtain ⟨hmem, hend⟩ := closing_foldl_closeLine hkeyed lines (List.Subset.refl lines) (cache, [])
    (Closing.start cache lines)
  exact ⟨hmem, _, hend⟩

/-- A closed graph holds its own lines, and no more than any set that is completed from them. -/
theorem closeGraph_least {cache : FragmentCache} (hkeyed : cache.Keyed) (lines : List Fragment) :
    lines ⊆ closeGraph cache lines ∧
      ∀ s, cache.Completes lines s → ∀ f ∈ closeGraph cache lines, f ∈ s := by
  obtain ⟨hmem, _, hend⟩ := closing_closeGraph hkeyed lines
  exact ⟨hmem, hend.least⟩

theorem completes_closeGraph {cache : FragmentCache} (hkeyed : cache.Keyed)
    (lines : List Fragment) : cache.Completes lines {f | f ∈ closeGraph cache lines} := by
  obtain ⟨hmem, _, hend⟩ := closing_closeGraph hkeyed lines
  refine ⟨fun f hf => hmem hf, ?_⟩
  intro f hf p hp c hc
  rcases hend.resolved f hf p hp with hq | hall
  · exact absurd hq (List.not_mem_nil)
  · exact hall c hc

theorem introduced_closeGraph {cache : FragmentCache} (hkeyed : cache.Keyed)
    (lines : List Fragment) : Introduced lines (closeGraph cache lines) := by
  obtain ⟨-, _, hend⟩ := closing_closeGraph hkeyed lines
  exact hend.introduced

/-- The two states have closed the same, and know the same about every node. -/
def SameClosing (state state' : FragmentCache × List Fragment) : Prop :=
  (∀ n, state.1.get? n = state'.1.get? n) ∧ state.2 = state'.2

private theorem FragmentCache.get?_erase_congr {cache cache' : FragmentCache}
    (h : ∀ n, cache.get? n = cache'.get? n) (m : Node) :
    ∀ n, (cache.erase m).get? n = (cache'.erase m).get? n := by
  intro n
  rw [get?_erase, get?_erase, h]

private theorem sameClosing_pull {unread unread' : FragmentCache}
    (h : ∀ n, unread.get? n = unread'.get? n) (queue : List Node) (closed : List Fragment) :
    SameClosing (pull unread queue closed) (pull unread' queue closed) := by
  fun_induction pull unread queue closed generalizing unread' with
  | case1 unread closed =>
    rw [pull]
    exact ⟨h, rfl⟩
  | case2 unread closed n queue hn ih =>
    rw [pull_cons, ← h n, hn]
    exact ih h
  | case3 unread closed n queue f hn hf ih =>
    simp only [pull_cons, ← h n, hn, if_pos hf]
    exact ih (FragmentCache.get?_erase_congr h n)
  | case4 unread closed n queue f hn hf ih =>
    simp only [pull_cons, ← h n, hn, if_neg hf]
    exact ih (FragmentCache.get?_erase_congr h n)

theorem SameClosing.closeLine {state state' : FragmentCache × List Fragment}
    (h : SameClosing state state') (line : Fragment) :
    SameClosing (closeLine state line) (LeakTrace.closeLine state' line) := by
  rw [LeakTrace.closeLine, LeakTrace.closeLine, h.2]
  split
  · exact h
  · exact sameClosing_pull h.1 line.predecessors (state'.2 ++ [line])

/-- Closing depends on what the cache knows, and on nothing else of it. -/
theorem closeGraph_congr {cache cache' : FragmentCache}
    (h : ∀ n, cache.get? n = cache'.get? n) (lines : List Fragment) :
    closeGraph cache lines = closeGraph cache' lines := by
  have hfold : ∀ state state', SameClosing state state' →
      SameClosing (lines.foldl closeLine state) (lines.foldl closeLine state') := by
    induction lines with
    | nil => exact fun _ _ hs => hs
    | cons line lines ih => exact fun _ _ hs => ih _ _ (hs.closeLine line)
  exact (hfold (cache, []) (cache', []) ⟨h, rfl⟩).2

/-- Closing ends for every cache that was built record by record, also where its references run in
a cycle, and gives the least completed set as a list in which every fragment stands once. -/
theorem closeGraph_isLeast (recorded lines : List Fragment) :
    (closeGraph (.ofList recorded) lines).Nodup ∧
      IsLeast {s | (FragmentCache.ofList recorded).Completes lines s}
        {f | f ∈ closeGraph (.ofList recorded) lines} ∧
      Introduced lines (closeGraph (.ofList recorded) lines) := by
  have hkeyed := FragmentCache.keyed_ofList recorded
  obtain ⟨-, _, hend⟩ := closing_closeGraph hkeyed lines
  exact ⟨hend.nodup, ⟨completes_closeGraph hkeyed lines, fun s hs f hf => hend.least s hs f hf⟩,
    hend.introduced⟩

end LeakTrace
