import LeakTrace.Proofs.Graph.Closure
import LeakTrace.Proofs.Unseen

namespace LeakTrace

/-- The lines that are not closed yet when their turn comes; `before` are the lines before the first
one given. -/
def ownTurns (cache : FragmentCache) : List Fragment → List Fragment → List Fragment
  | _, [] => []
  | before, line :: lines =>
    if line ∈ closeGraph cache before then ownTurns cache (before ++ [line]) lines
    else line :: ownTurns cache (before ++ [line]) lines

variable {cache : FragmentCache}

private theorem closeGraph_concat_of_mem {before : List Fragment} {line : Fragment}
    (h : line ∈ closeGraph cache before) :
    closeGraph cache (before ++ [line]) = closeGraph cache before := by
  rw [closeGraph, List.foldl_append, List.foldl_cons, List.foldl_nil, closeLine]
  exact congrArg Prod.snd (if_pos h)

private theorem closeGraph_concat_of_not_mem {before : List Fragment} {line : Fragment}
    (h : line ∉ closeGraph cache before) : ∃ pulled,
    closeGraph cache (before ++ [line]) = closeGraph cache before ++ line :: pulled := by
  rw [closeGraph, List.foldl_append, List.foldl_cons, List.foldl_nil]
  rcases closeLine_cases (before.foldl closeLine (cache, [])) line with ⟨hmem, -⟩ | ⟨-, -, hadded⟩
  · exact absurd hmem h
  · exact hadded

/-- What further lines add to a closed list begins behind it and has them in their order, those apart
that were closed already. -/
theorem closeGraph_append (before lines : List Fragment) : ∃ added,
    closeGraph cache (before ++ lines) = closeGraph cache before ++ added ∧
      (ownTurns cache before lines).Sublist added := by
  induction lines generalizing before with
  | nil => exact ⟨[], by simp, .slnil⟩
  | cons line lines ih =>
    obtain ⟨added, hadded, hsub⟩ := ih (before ++ [line])
    have hsplit : before ++ line :: lines = before ++ [line] ++ lines := by simp
    rw [hsplit, hadded, ownTurns]
    by_cases hmem : line ∈ closeGraph cache before
    · rw [if_pos hmem, closeGraph_concat_of_mem hmem]
      exact ⟨added, rfl, hsub⟩
    · obtain ⟨pulled, hpulled⟩ := closeGraph_concat_of_not_mem hmem
      rw [if_neg hmem, hpulled]
      have hbehind : (ownTurns cache (before ++ [line]) lines).Sublist (pulled ++ added) :=
        hsub.trans (List.sublist_append_right pulled added)
      exact ⟨line :: pulled ++ added, by simp, hbehind.cons_cons line⟩

/-- Where nothing is pulled in before its turn, the lines that have a turn of their own are all lines
without the repetitions. -/
theorem ownTurns_eq_eraseDups {before lines : List Fragment}
    (h : ∀ ahead line behind, lines = ahead ++ line :: behind →
      line ∈ closeGraph cache (before ++ ahead) → line ∈ before ++ ahead) :
    ownTurns cache before lines = (lines.filter (· ∉ before)).eraseDups := by
  induction lines generalizing before with
  | nil => rfl
  | cons line lines ih =>
    have hrest : ownTurns cache (before ++ [line]) lines = unseen (before ++ [line]) lines := by
      refine ih fun ahead f behind hlines hf => ?_
      have hsplit : line :: lines = (line :: ahead) ++ f :: behind := by rw [hlines]; rfl
      have hmem := h (line :: ahead) f behind hsplit (by simpa using hf)
      simpa using hmem
    rw [← unseen]
    by_cases hline : line ∈ before
    · have hclosed : line ∈ closeGraph cache before :=
        subset_foldl_closeLine (cache, []) before (by simpa using hline)
      rw [ownTurns, if_pos hclosed, hrest, unseen_concat_of_mem hline, unseen_cons_of_mem hline]
    · have hopen : line ∉ closeGraph cache before := fun hmem =>
        hline (by simpa using h [] line lines rfl (by simpa using hmem))
      rw [ownTurns, if_neg hopen, hrest, unseen_cons_of_not_mem hline]

/-- A closed fragment that is not one of the lines is what the cache knows about its node. -/
theorem cached_of_mem_closeGraph (hkeyed : cache.Keyed) {lines : List Fragment} {f : Fragment}
    (h : f ∈ closeGraph cache lines) (hf : f ∉ lines) : cache.get? f.node = some f := by
  have hcompletes : cache.Completes lines {f | f ∈ lines ∨ cache.get? f.node = some f} := by
    refine ⟨fun f hf => .inl hf, fun _ _ p _ c hc => .inr ?_⟩
    rw [hkeyed p c hc]
    exact hc
  exact ((closeGraph_least hkeyed lines).2 _ hcompletes f h).resolve_left hf

/-- The lines that are not closed before their turn stand in the closed list in the order of
recording. A line that is closed before its turn, and is not one of the lines before it, is what the
cache knows about its node, and stands behind a fragment that was derived from it. So where there is
no such line, all lines without the repetitions stand in their order. -/
theorem own_lines_keep_order (recorded lines : List Fragment) :
    (ownTurns (.ofList recorded) [] lines).Sublist (closeGraph (.ofList recorded) lines) ∧
      (∀ before line after, lines = before ++ line :: after → line ∉ before →
        line ∈ closeGraph (.ofList recorded) before →
        (FragmentCache.ofList recorded).get? line.node = some line ∧
          ∃ ahead behind, closeGraph (.ofList recorded) before = ahead ++ line :: behind ∧
            ∃ f ∈ ahead, line.node ∈ f.predecessors) ∧
      ((∀ before line after, lines = before ++ line :: after →
          line ∈ closeGraph (.ofList recorded) before → line ∈ before) →
        lines.eraseDups.Sublist (closeGraph (.ofList recorded) lines)) := by
  have hkeyed := FragmentCache.keyed_ofList recorded
  have hturns : (ownTurns (.ofList recorded) [] lines).Sublist
      (closeGraph (.ofList recorded) lines) := by
    obtain ⟨added, hadded, hsub⟩ := @closeGraph_append (.ofList recorded) [] lines
    rw [List.nil_append] at hadded
    rw [hadded]
    exact hsub
  refine ⟨hturns, ?_, fun hnone => ?_⟩
  · intro before line after _ hline hclosed
    obtain ⟨ahead, behind, hsplit⟩ := List.append_of_mem hclosed
    exact ⟨cached_of_mem_closeGraph hkeyed hclosed hline, ahead, behind, hsplit,
      introduced_closeGraph hkeyed before ahead line behind hsplit hline⟩
  · have hall := @ownTurns_eq_eraseDups (.ofList recorded) [] lines hnone
    rw [hall] at hturns
    simpa using hturns

def aReader : Fragment := ⟨⟨12, "c"⟩, ⟨10, "a"⟩, none⟩

def bWriter : Fragment := ⟨⟨11, "b"⟩, ⟨9, "STARTPATH"⟩, none⟩

def aWriter : Fragment := ⟨⟨10, "a"⟩, ⟨8, "STARTPATH"⟩, none⟩

private theorem closeGraph_overtaken :
    closeGraph (.ofList [aReader, bWriter, aWriter]) [aReader, bWriter, aWriter] =
      [aReader, aWriter, bWriter] := by
  generalize hcache : FragmentCache.ofList [aReader, bWriter, aWriter] = cache
  have hcached : cache.get? ⟨10, "a"⟩ = some aWriter := by
    rw [← hcache]
    decide +kernel
  have hroots : ∀ n ∈ aWriter.predecessors ++ bWriter.predecessors,
      (cache.erase ⟨10, "a"⟩).get? n = none := by
    rw [← hcache]
    decide +kernel
  have hfirst : closeLine (cache, []) aReader = (cache.erase ⟨10, "a"⟩, [aReader, aWriter]) :=
    closeLine_of_known List.not_mem_nil hcached (by decide)
      fun n hn => hroots n (List.mem_append_left _ hn)
  have hsecond : closeLine (cache.erase ⟨10, "a"⟩, [aReader, aWriter]) bWriter =
      (cache.erase ⟨10, "a"⟩, [aReader, aWriter, bWriter]) :=
    closeLine_of_unknown (by decide) fun n hn => hroots n (List.mem_append_right _ hn)
  have hthird : aWriter ∈ [aReader, aWriter, bWriter] := by simp
  rw [closeGraph, List.foldl_cons, hfirst, List.foldl_cons, hsecond, List.foldl_cons,
    List.foldl_nil, closeLine, if_pos hthird]

theorem last_line_overtakes :
    ¬∀ recorded lines : List Fragment,
      lines.eraseDups.Sublist (closeGraph (.ofList recorded) lines) := by
  intro h
  have hsub := h [aReader, bWriter, aWriter] [aReader, bWriter, aWriter]
  rw [closeGraph_overtaken] at hsub
  exact absurd hsub (by decide +kernel)

end LeakTrace
