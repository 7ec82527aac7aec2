import LeakTrace.Proofs.Log.Bindings
import Mathlib.Data.List.Induction

namespace LeakTrace

/-- The graph and the fragment of a dump. -/
def Record.dump? : Record → Option (GraphId × Fragment)
  | .dump graph f => some (graph, f)
  | _ => none

private theorem bind_dump?_eq_some_iff {line : String} {g : GraphId} {f : Fragment} :
    (record? line).bind Record.dump? = some (g, f) ↔
      (Reading.ofLine line).content = .record (.dump g f) := by
  have hdump (record : Record) : record.dump? = some (g, f) ↔ record = .dump g f := by
    cases record <;> simp [Record.dump?]
  simp [Option.bind_eq_some_iff, record?_eq_some_iff, hdump]

/-- One of the lines dumps the fragment under the graph. -/
def Dumps (lines : List String) (graph : GraphId) (f : Fragment) : Prop :=
  ∃ line ∈ lines, (Reading.ofLine line).content = .record (.dump graph f)

def dumpedFragment? (line : String) : Option Fragment :=
  ((record? line).bind Record.dump?).map Prod.snd

/-- The fragment that the lines dump last for a node, under whatever graph. -/
def latestDump? (lines : List String) (n : Node) : Option Fragment :=
  ((lines.filterMap dumpedFragment?).filter (·.node = n)).getLast?

private theorem dumpedFragment?_eq_some_iff {line : String} {f : Fragment} :
    dumpedFragment? line = some f ↔ ∃ g, (Reading.ofLine line).content = .record (.dump g f) := by
  rw [dumpedFragment?, Option.map_eq_some_iff]
  simp [Prod.exists, bind_dump?_eq_some_iff]

theorem mem_dumpedFragments {lines : List String} {f : Fragment} :
    f ∈ lines.filterMap dumpedFragment? ↔ ∃ g, Dumps lines g f := by
  simp only [List.mem_filterMap, dumpedFragment?_eq_some_iff, Dumps]
  exact ⟨fun ⟨line, hline, g, hg⟩ => ⟨g, line, hline, hg⟩,
    fun ⟨g, line, hline, hg⟩ => ⟨line, hline, g, hg⟩⟩

private theorem FragmentCache.get?_ofList (fs : List Fragment) (n : Node) :
    (ofList fs).get? n = (fs.filter (·.node = n)).getLast? := by
  induction fs using List.reverseRecOn with
  | nil => exact get?_empty n
  | append_singleton fs f ih =>
    have hlast : ofList (fs ++ [f]) = (ofList fs).record f := by simp [ofList]
    rw [hlast, get?_record, List.filter_append]
    by_cases hn : f.node = n
    · simp [hn]
    · simp [hn, ih]

namespace TaintLog

variable {g : GraphId} {f : Fragment}

/-- The fragments that the log holds for a graph. -/
def fragments (log : TaintLog) (g : GraphId) : List Fragment := (log.graphs.get? g).getD []

private theorem graphs_addLine (log : TaintLog) (line : String) :
    (log.addLine line).graphs = ((record? line).bind Record.dump?).elim log.graphs
      fun d => log.graphs.push d.1 d.2 := by
  rw [addLine, addReading, record?]
  cases (Reading.ofLine line).content with
  | ignored => rfl
  | faulty fault => rfl
  | record record => cases record <;> rfl

private theorem mem_fragments_addLine (log : TaintLog) (line : String) :
    f ∈ (log.addLine line).fragments g ↔
      f ∈ log.fragments g ∨ (Reading.ofLine line).content = .record (.dump g f) := by
  rw [fragments, fragments, graphs_addLine, ← bind_dump?_eq_some_iff]
  cases (record? line).bind Record.dump? with
  | none => simp
  | some d =>
    rw [Option.elim_some, GraphSet.get?_push]
    by_cases hg : d.1 = g
    · simp [Prod.ext_iff, hg, eq_comm]
    · simp [Prod.ext_iff, hg]

theorem mem_fragments_ofLines {lines : List String} :
    f ∈ (ofLines lines).fragments g ↔ Dumps lines g f := by
  have hfold := foldl_iff (Q := fun log => f ∈ log.fragments g)
    mem_fragments_addLine lines empty
  have hempty : empty.fragments g = [] := rfl
  rw [hempty] at hfold
  exact hfold.trans (by simp [Dumps])

private theorem mem_ids_addLine (log : TaintLog) (line : String) :
    g ∈ (log.addLine line).graphs.ids ↔
      g ∈ log.graphs.ids ∨ ∃ f, (Reading.ofLine line).content = .record (.dump g f) := by
  rw [graphs_addLine]
  simp only [← bind_dump?_eq_some_iff]
  cases (record? line).bind Record.dump? with
  | none => simp
  | some d =>
    rw [Option.elim_some, GraphSet.mem_ids_push]
    simp [Prod.ext_iff, eq_comm]

theorem mem_ids_ofLines {lines : List String} :
    g ∈ (ofLines lines).graphs.ids ↔ ∃ f, Dumps lines g f := by
  have hfold := foldl_iff (Q := fun log : TaintLog => g ∈ log.graphs.ids)
    mem_ids_addLine lines empty
  have hempty : empty.graphs.ids = [] := rfl
  rw [hempty] at hfold
  refine hfold.trans ?_
  simp only [List.not_mem_nil, false_or, Dumps]
  exact ⟨fun ⟨line, hline, f, hf⟩ => ⟨f, line, hline, hf⟩,
    fun ⟨f, line, hline, hf⟩ => ⟨line, hline, f, hf⟩⟩

private theorem cache_addLine (log : TaintLog) (line : String) :
    (log.addLine line).cache = (dumpedFragment? line).elim log.cache log.cache.record := by
  rw [addLine, addReading, dumpedFragment?, record?]
  cases (Reading.ofLine line).content with
  | ignored => rfl
  | faulty fault => rfl
  | record record => cases record <;> rfl

/-- The cache of a log holds the fragments that were dumped, in the order of the lines. -/
theorem cache_ofLines (lines : List String) :
    (ofLines lines).cache = .ofList (lines.filterMap dumpedFragment?) := by
  induction lines using List.reverseRecOn with
  | nil => rfl
  | append_singleton lines line ih =>
    rw [ofLines_concat, cache_addLine, ih, List.filterMap_append]
    cases hline : dumpedFragment? line <;> simp [hline, FragmentCache.ofList]

/-- What the cache of a log holds for a node is what was dumped last for it. -/
theorem cached_ofLines (lines : List String) (n : Node) :
    (ofLines lines).cache.get? n = latestDump? lines n := by
  rw [cache_ofLines, FragmentCache.get?_ofList, latestDump?]

theorem dumps_of_cached {lines : List String} {n : Node}
    (h : (ofLines lines).cache.get? n = some f) : f.node = n ∧ ∃ g, Dumps lines g f := by
  rw [cached_ofLines, latestDump?] at h
  obtain ⟨hmem, hnode⟩ := List.mem_filter.mp (List.mem_of_getLast? h)
  exact ⟨of_decide_eq_true hnode, mem_dumpedFragments.mp hmem⟩

end TaintLog

end LeakTrace
