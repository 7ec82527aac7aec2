import LeakTrace.Proofs.Graph.Closure

namespace LeakTrace

variable {state next last : FragmentCache × List Fragment}

private theorem foldl_closeLine_of_subset {lines : List Fragment} (h : lines ⊆ state.2) :
    lines.foldl closeLine state = state := by
  induction lines with
  | nil => rfl
  | cons line lines ih =>
    obtain ⟨hline, hlines⟩ := List.cons_subset.mp h
    rw [List.foldl_cons, closeLine, if_pos hline]
    exact ih hlines

/-- The later state has more fragments behind those of the earlier one, and these, taken as lines,
lead from the earlier state to it. -/
def Replays (state next : FragmentCache × List Fragment) : Prop :=
  ∃ added, next.2 = state.2 ++ added ∧ added.foldl closeLine state = next

theorem Replays.refl (state : FragmentCache × List Fragment) : Replays state state :=
  ⟨[], (List.append_nil state.2).symm, rfl⟩

theorem Replays.trans (h : Replays state next) (h' : Replays next last) : Replays state last := by
  obtain ⟨added, hnext, rfl⟩ := h
  obtain ⟨added', hlast, rfl⟩ := h'
  refine ⟨added ++ added', ?_, List.foldl_append⟩
  rw [hlast, hnext, List.append_assoc]

/-- What is pulled in for a line is there as soon as the line is replayed. -/
theorem replays_closeLine (state : FragmentCache × List Fragment) (line : Fragment) :
    Replays state (closeLine state line) := by
  rcases closeLine_cases state line with ⟨-, heq⟩ | ⟨-, -, pulled, hadded⟩
  · rw [heq]
    exact Replays.refl state
  · have hpulled : pulled ⊆ (closeLine state line).2 := by
      rw [hadded]
      exact fun f hf => List.mem_append_right state.2 (List.mem_cons_of_mem line hf)
    exact ⟨line :: pulled, hadded, foldl_closeLine_of_subset hpulled⟩

private theorem replays_foldl_closeLine (state : FragmentCache × List Fragment)
    (lines : List Fragment) :
    Replays state (lines.foldl closeLine state) :=
  List.foldlRecOn lines closeLine (Replays.refl state) fun next h line _ =>
    h.trans (replays_closeLine next line)

/-- A closed graph is closed already: to close it once more, against the same cache, gives the same
fragments in the same order. The references of the cache may run in cycles. -/
theorem closeGraph_closeGraph (cache : FragmentCache) (lines : List Fragment) :
    closeGraph cache (closeGraph cache lines) = closeGraph cache lines := by
  obtain ⟨added, hclosed, hreplayed⟩ := replays_foldl_closeLine (cache, []) lines
  have hadded : closeGraph cache lines = added := hclosed
  calc closeGraph cache (closeGraph cache lines)
      = (added.foldl closeLine (cache, [])).2 := by rw [hadded, closeGraph]
    _ = closeGraph cache lines := congrArg Prod.snd hreplayed

end LeakTrace
