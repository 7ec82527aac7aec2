import LeakTrace.Graph.Splice
import Mathlib.Data.List.Nodup

namespace LeakTrace

/-- The lines that stand for one reference when graphs come to what `nested` says. -/
def inlined (nested : GraphId → Option (List Fragment)) (previous : Option Fragment)
    (target : GraphId) : List Fragment :=
  match nested target with
  | some (first :: rest) => bridge previous first ++ first :: rest
  | _ => []

/-- Puts, target by target, what `nested` says in the place of each boundary line; `previous` is the
raw line before the first one given. -/
def replaceBoundaries (nested : GraphId → Option (List Fragment)) :
    Option Fragment → List Fragment → List Fragment
  | _, [] => []
  | previous, line :: lines =>
    (if line.node.isBoundary then line.node.boundaryTargets.flatMap (inlined nested previous)
      else [line]) ++ replaceBoundaries nested (some line) lines

namespace Splicer

private theorem inline_fst (s : Splicer) (previous : Option Fragment) (counts : SpliceCounts)
    (target : GraphId) :
    (s.inline previous counts target).1 = inlined s.result? previous target := by
  unfold inline inlined
  cases s.result? target with
  | none => cases s.raw.contains target <;> rfl
  | some lines =>
    cases lines with
    | nil => cases s.raw.contains target <;> rfl
    | cons first rest => rfl

private theorem inlineAll_fst (s : Splicer) (previous : Option Fragment) (counts : SpliceCounts)
    (targets : List GraphId) :
    (s.inlineAll previous counts targets).1 = targets.flatMap (inlined s.result? previous) := by
  induction targets generalizing counts with
  | nil => rfl
  | cons target targets ih =>
    rw [inlineAll, List.flatMap_cons, ← inline_fst s previous counts target, ← ih]

private theorem expand_fst (s : Splicer) (previous : Option Fragment) (counts : SpliceCounts)
    (lines : List Fragment) :
    (s.expand previous counts lines).1 = replaceBoundaries s.result? previous lines := by
  induction lines generalizing previous counts with
  | nil => rfl
  | cons line lines ih =>
    by_cases hb : line.node.isBoundary = true
    · simp only [expand, replaceBoundaries, if_pos hb, inlineAll_fst, ih]
    · simp only [expand, replaceBoundaries, if_neg hb, ih]

theorem result?_build (s : Splicer) (graph g : GraphId) (lines : List Fragment) :
    (s.build graph lines).result? g =
      if graph = g then some (replaceBoundaries s.result? none lines) else s.result? g := by
  rw [← expand_fst s none s.counts lines]
  simp [build, result?, Std.TreeMap.getElem?_insert]

theorem result?_eq_none_iff {s : Splicer} {g : GraphId} :
    s.result? g = none ↔ ¬s.done.contains g = true := by
  rw [result?, Std.TreeMap.contains_eq_isSome_getElem?]
  simp

theorem waits_build {s : Splicer} {graph g : GraphId} {lines : List Fragment} :
    (s.build graph lines).result? g = none ↔ graph ≠ g ∧ s.result? g = none := by
  rw [result?_build]
  split
  · next heq => simp [heq]
  · next hne => simp [hne]

theorem raw_build (s : Splicer) (graph : GraphId) (lines : List Fragment) :
    (s.build graph lines).raw = s.raw.remove graph := rfl

/-- The graphs are visited in order, and the second list of graphs is built on the way. A graph that
is done, that is not to be entered or that was never dumped is passed over. -/
inductive Visits : List GraphId → Splicer → List GraphId → List GraphId → Splicer → Prop
  | nil {offPath : List GraphId} {s : Splicer} : Visits offPath s [] [] s
  | skip {offPath targets built : List GraphId} {s s' : Splicer} {t : GraphId} :
      (t ∈ offPath → s.result? t = none → s.raw.get? t = none) →
      Visits offPath s targets built s' → Visits offPath s (t :: targets) built s'
  | build {offPath targets below built : List GraphId} {s inner s' : Splicer} {t : GraphId}
      {lines : List Fragment} :
      t ∈ offPath → s.result? t = none → s.raw.get? t = some lines →
      Visits (offPath.erase t) s (boundaryReferences lines) below inner →
      Visits offPath (inner.build t lines) targets built s' →
      Visits offPath s (t :: targets) (below ++ t :: built) s'

namespace Visits

variable {offPath targets built : List GraphId} {s s' s'' : Splicer} {t g : GraphId}

theorem cons {built' : List GraphId} (h : Visits offPath s [t] built s')
    (h' : Visits offPath s' targets built' s'') :
    Visits offPath s (t :: targets) (built ++ built') s'' := by
  cases h with
  | skip hskip hrest =>
    cases hrest
    exact .skip hskip h'
  | build hoff hwaits hlines hbelow hrest =>
    cases hrest
    rw [List.append_assoc]
    exact .build hoff hwaits hlines hbelow h'

theorem uncons (h : Visits offPath s (t :: targets) built s') :
    ∃ here rest inner, built = here ++ rest ∧ Visits offPath s [t] here inner ∧
      Visits offPath inner targets rest s' := by
  cases h with
  | skip hskip hrest => exact ⟨[], _, s, rfl, .skip hskip .nil, hrest⟩
  | @build _ _ below rest _ inner _ _ lines hoff hwaits hlines hbelow hrest =>
    exact ⟨below ++ [t], rest, inner.build t lines, by simp,
      .build hoff hwaits hlines hbelow .nil, hrest⟩

theorem foldl {enter : Splicer → GraphId → Splicer}
    (henter : ∀ s t, ∃ built, Visits offPath s [t] built (enter s t)) (targets : List GraphId)
    (s : Splicer) : ∃ built, Visits offPath s targets built (targets.foldl enter s) := by
  induction targets generalizing s with
  | nil => exact ⟨[], .nil⟩
  | cons t targets ih =>
    obtain ⟨built, hhead⟩ := henter s t
    obtain ⟨built', htail⟩ := ih (enter s t)
    exact ⟨built ++ built', hhead.cons htail⟩

/-- Entering a graph visits it. -/
theorem enter (offPath : List GraphId) (s : Splicer) (g : GraphId) :
    ∃ built, Visits offPath s [g] built (s.enter offPath g) := by
  induction offPath, s, g using Splicer.enter.induct with
  | case1 offPath s g hdone =>
    rw [Splicer.enter, if_pos hdone]
    exact ⟨[], .skip (fun _ hwaits => absurd hdone (result?_eq_none_iff.mp hwaits)) .nil⟩
  | case2 offPath s g hnew hmem hraw =>
    rw [Splicer.enter, if_neg hnew, dif_pos hmem, hraw]
    exact ⟨[], .skip (fun _ _ => hraw) .nil⟩
  | case3 offPath s g hnew hmem lines hraw ih =>
    rw [Splicer.enter, if_neg hnew, dif_pos hmem, hraw]
    obtain ⟨below, hbelow⟩ := foldl ih (boundaryReferences lines) s
    exact ⟨below ++ [g], .build hmem (result?_eq_none_iff.mpr hnew) hraw hbelow .nil⟩
  | case4 offPath s g hnew hoff =>
    rw [Splicer.enter, if_neg hnew, dif_neg hoff]
    exact ⟨[], .skip (fun hmem => absurd hmem hoff) .nil⟩

private theorem mem_offPath (h : Visits offPath s targets built s') : ∀ g ∈ built, g ∈ offPath := by
  induction h with
  | nil => simp
  | skip hskip hrest ih => exact ih
  | build hoff hwaits hlines hbelow hrest ihbelow ihrest =>
    intro g hg
    rcases List.mem_append.mp hg with hg | hg
    · exact List.mem_of_mem_erase (ihbelow g hg)
    · rcases List.mem_cons.mp hg with rfl | hg
      · exact hoff
      · exact ihrest g hg

/-- A graph is done afterwards if it was done before or is built. -/
theorem waits_iff (h : Visits offPath s targets built s') :
    s'.result? g = none ↔ s.result? g = none ∧ g ∉ built := by
  induction h with
  | nil => simp
  | skip hskip hrest ih => exact ih
  | @build offPath targets below built s inner s' t lines hoff hwaits hlines hbelow hrest
      ihbelow ihrest =>
    rw [ihrest, waits_build, ihbelow]
    simp only [List.mem_append, List.mem_cons, not_or]
    grind

theorem raw_get? (h : Visits offPath s targets built s') :
    s'.raw.get? g = if g ∈ built then none else s.raw.get? g := by
  induction h with
  | nil => simp
  | skip hskip hrest ih => exact ih
  | build hoff hwaits hlines hbelow hrest ihbelow ihrest =>
    rw [ihrest, raw_build, GraphSet.get?_remove, ihbelow]
    simp only [List.mem_append, List.mem_cons]
    grind

theorem raw_of_raw_build {lines : List Fragment} (h : Visits offPath s targets built s')
    (hg : (s'.build t lines).raw.get? g ≠ none) : s.raw.get? g ≠ none := by
  intro hnone
  rw [raw_build, GraphSet.get?_remove, h.raw_get?, hnone, ite_self, ite_self] at hg
  exact hg rfl

/-- The graph itself is not built while the graphs that it names are visited. -/
theorem not_mem_below {below : List GraphId} {inner : Splicer} (hnodup : offPath.Nodup)
    (h : Visits (offPath.erase t) s targets below inner) : t ∉ below :=
  fun hmem => hnodup.not_mem_erase (h.mem_offPath t hmem)

/-- Nothing that waits is left out, except on the path. -/
theorem passed (h : Visits offPath s targets built s') :
    ∀ t ∈ targets, t ∈ offPath → s'.result? t = none → s'.raw.get? t = none := by
  induction h with
  | nil => simp
  | skip hskip hrest ih =>
    intro t ht hoff hnone
    rcases List.mem_cons.mp ht with rfl | ht
    · rw [hrest.raw_get?]
      split
      · rfl
      · exact hskip hoff (hrest.waits_iff.mp hnone).1
    · exact ih t ht hoff hnone
  | build hoff hwaits hlines hbelow hrest ihbelow ihrest =>
    intro t ht htoff hnone
    rcases List.mem_cons.mp ht with rfl | ht
    · exact absurd rfl (waits_build.mp (hrest.waits_iff.mp hnone).1).1
    · exact ihrest t ht htoff hnone

/-- What is no longer raw may be on the path or off it. -/
theorem congr {offPath' : List GraphId} (h : Visits offPath s targets built s')
    (hnodup : offPath.Nodup) (hnodup' : offPath'.Nodup)
    (hsame : ∀ t, s.raw.get? t ≠ none → (t ∈ offPath ↔ t ∈ offPath')) :
    Visits offPath' s targets built s' := by
  induction h generalizing offPath' with
  | nil => exact .nil
  | skip hskip hrest ih =>
    refine .skip (fun hin hwaits => ?_) (ih hnodup hnodup' hsame)
    by_contra hraw
    exact hraw (hskip ((hsame _ hraw).mpr hin) hwaits)
  | @build offPath targets below built s inner s' t lines hoff hwaits hlines hbelow hrest
      ihbelow ihrest =>
    have hoff' : t ∈ offPath' := (hsame t (by simp [hlines])).mp hoff
    have hbelow' : Visits (offPath'.erase t) s (boundaryReferences lines) below inner := by
      refine ihbelow (hnodup.erase t) (hnodup'.erase t) fun u hu => ?_
      rw [hnodup.mem_erase_iff, hnodup'.mem_erase_iff, hsame u hu]
    exact .build hoff' hwaits hlines hbelow'
      (ihrest hnodup hnodup' fun u hu => hsame u (hbelow.raw_of_raw_build hu))

private theorem calls_of_raw (calls : List GraphId) (hnodup : offPath.Nodup)
    (hoff : ∀ t, s.raw.get? t ≠ none → t ∈ offPath) :
    ∃ built, Visits offPath s calls built (calls.foldl Splicer.splice s) := by
  induction calls generalizing s with
  | nil => exact ⟨[], .nil⟩
  | cons g calls ih =>
    obtain ⟨built, hcall⟩ := enter s.raw.ids s g
    have hhead : Visits offPath s [g] built (s.splice g) :=
      hcall.congr s.raw.nodup hnodup fun t ht =>
        ⟨fun _ => hoff t ht, fun _ => GraphSet.mem_ids_of_get?_ne_none ht⟩
    have hoff' : ∀ t, (s.splice g).raw.get? t ≠ none → t ∈ offPath := by
      intro t ht
      rw [hhead.raw_get?] at ht
      split at ht
      · exact absurd rfl ht
      · exact hoff t ht
    obtain ⟨built', hrest⟩ := ih hoff'
    exact ⟨built ++ built', hhead.cons hrest⟩

theorem calls (s : Splicer) (calls : List GraphId) :
    ∃ built, Visits s.raw.ids s calls built (calls.foldl Splicer.splice s) :=
  calls_of_raw calls s.raw.nodup fun _ => GraphSet.mem_ids_of_get?_ne_none

end Visits

end Splicer

end LeakTrace
