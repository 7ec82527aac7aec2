import LeakTrace.Proofs.Log.Dumps

namespace LeakTrace

/-- The fault of a line that carries a mark and cannot be read. -/
def fault? (line : String) : Option LineFault :=
  match (Reading.ofLine line).content with
  | .faulty fault => some fault
  | _ => none

def records (lines : List String) : List Record := lines.filterMap record?

def faults (lines : List String) : List LineFault := lines.filterMap fault?

/-- The graph that a record announces as dumped beyond a boundary. -/
def Record.boundary? : Record → Option GraphId
  | .boundary graph => some graph
  | _ => none

def dumps (rs : List Record) : List (GraphId × Fragment) := rs.filterMap Record.dump?

/-- The fragments that are dumped under a graph, in order. -/
def dumpedUnder (g : GraphId) (ds : List (GraphId × Fragment)) : List Fragment :=
  (ds.filter (·.1 = g)).map Prod.snd

namespace GraphSet

def ofDumps (ds : List (GraphId × Fragment)) : GraphSet :=
  ds.foldl (fun s d => s.push d.1 d.2) empty

private theorem ofDumps_concat (ds : List (GraphId × Fragment)) (d : GraphId × Fragment) :
    ofDumps (ds ++ [d]) = (ofDumps ds).push d.1 d.2 := by
  rw [ofDumps, List.foldl_append]
  rfl

private theorem ids_ofDumps (ds : List (GraphId × Fragment)) :
    (ofDumps ds).ids = (ds.map Prod.fst).eraseDups := by
  induction ds using List.reverseRecOn with
  | nil => rfl
  | append_singleton ds d ih =>
    rw [ofDumps_concat, ids_push, ih, List.map_append, List.eraseDups_append]
    by_cases hd : d.1 ∈ ds.map Prod.fst
    · simp [hd, List.removeAll]
    · simp [hd, List.removeAll, List.eraseDups_cons]

/-- A graph is held if something was dumped under it, and then with all its fragments in order. -/
theorem get?_ofDumps (ds : List (GraphId × Fragment)) (g : GraphId) :
    (ofDumps ds).get? g =
      if g ∈ ds.map Prod.fst then some (dumpedUnder g ds) else none := by
  induction ds using List.reverseRecOn with
  | nil => rfl
  | append_singleton ds d ih =>
    rw [ofDumps_concat, get?_push]
    by_cases hd : d.1 = g
    · subst hd
      have hearlier : ((ofDumps ds).get? d.1).getD [] = dumpedUnder d.1 ds := by
        rw [ih]
        split
        · rfl
        · next hnot =>
          have hnone : ds.filter (·.1 = d.1) = [] := by
            rw [List.filter_eq_nil_iff]
            intro d' hd' heq
            exact hnot (of_decide_eq_true heq ▸ List.mem_map_of_mem hd')
          rw [dumpedUnder, hnone]
          rfl
      simp [hearlier, dumpedUnder]
    · have hmem : g ∈ (ds ++ [d]).map Prod.fst ↔ g ∈ ds.map Prod.fst := by
        rw [List.map_append, List.mem_append, List.map_singleton, List.mem_singleton]
        exact or_iff_left (Ne.symm hd)
      have hunder : dumpedUnder g (ds ++ [d]) = dumpedUnder g ds := by simp [dumpedUnder, hd]
      simp only [if_neg hd, ih, hmem, hunder]

private theorem exists_mem_ofDumps {ds : List (GraphId × Fragment)} {f : Fragment} :
    (∃ g own, (ofDumps ds).get? g = some own ∧ f ∈ own) ↔ f ∈ ds.map Prod.snd := by
  simp only [get?_ofDumps, Option.ite_none_right_eq_some, List.mem_map]
  constructor
  · rintro ⟨g, own, ⟨-, hown⟩, hf⟩
    obtain rfl := Option.some.inj hown
    obtain ⟨d, hd, rfl⟩ := List.mem_map.mp hf
    exact ⟨d, (List.mem_filter.mp hd).1, rfl⟩
  · rintro ⟨d, hd, rfl⟩
    refine ⟨d.1, dumpedUnder d.1 ds, ⟨⟨d, hd, rfl⟩, rfl⟩, List.mem_map_of_mem ?_⟩
    exact List.mem_filter.mpr ⟨hd, by simp⟩

private theorem length_flatMap_update (graph : GraphId) (f : Fragment)
    (l : List (GraphId × List Fragment)) :
    ((update graph (fun lines => lines.getD [] ++ [f]) l).flatMap Prod.snd).length =
      (l.flatMap Prod.snd).length + 1 := by
  induction l with
  | nil => rfl
  | cons p rest ih =>
    rw [update]
    split
    · simp only [List.flatMap_cons, List.length_append, Option.getD_some, List.length_singleton]
      omega
    · simp only [List.flatMap_cons, List.length_append, ih]
      omega

private theorem fragmentCount_ofDumps (ds : List (GraphId × Fragment)) :
    (ofDumps ds).fragmentCount = ds.length := by
  induction ds using List.reverseRecOn with
  | nil => rfl
  | append_singleton ds d ih =>
    rw [ofDumps_concat, fragmentCount, push, length_flatMap_update, List.length_append,
      List.length_singleton]
    exact congrArg (· + 1) ih

end GraphSet

private theorem records_append (lines lines' : List String) :
    records (lines ++ lines') = records lines ++ records lines' := List.filterMap_append

private theorem faults_append (lines lines' : List String) :
    faults (lines ++ lines') = faults lines ++ faults lines' := List.filterMap_append

private theorem dumps_append (rs rs' : List Record) : dumps (rs ++ rs') = dumps rs ++ dumps rs' :=
  List.filterMap_append

namespace TaintLog

private theorem apply_adds (log : TaintLog) (record : Record) :
    (log.apply record).graphs = (dumps [record]).foldl (fun s d => s.push d.1 d.2) log.graphs ∧
      (log.apply record).boundaries = log.boundaries ++ [record].filterMap Record.boundary? ∧
      (log.apply record).counts =
        { log.counts with dumpLines := log.counts.dumpLines + (dumps [record]).length } := by
  cases record with
  | dump graph f => exact ⟨rfl, (List.append_nil _).symm, rfl⟩
  | boundary graph => exact ⟨rfl, rfl, rfl⟩
  | sourceDetail statement detail => exact ⟨rfl, (List.append_nil _).symm, rfl⟩
  | origin node => exact ⟨rfl, (List.append_nil _).symm, rfl⟩
  | reflective className target => exact ⟨rfl, (List.append_nil _).symm, rfl⟩
  | sink sink => exact ⟨rfl, (List.append_nil _).symm, rfl⟩

/-- A line adds what its record adds, and is counted for what it is. -/
theorem addLine_adds (log : TaintLog) (line : String) :
    (log.addLine line).graphs =
        (dumps (records [line])).foldl (fun s d => s.push d.1 d.2) log.graphs ∧
      (log.addLine line).boundaries =
        log.boundaries ++ (records [line]).filterMap Record.boundary? ∧
      (log.addLine line).counts =
        ⟨log.counts.lines + 1, log.counts.events + (records [line]).length,
          log.counts.malformed + (faults [line]).length,
          log.counts.dumpLines + (dumps (records [line])).length⟩ := by
  rw [addLine, addReading]
  cases hcontent : (Reading.ofLine line).content with
  | ignored => simp [records, faults, dumps, record?, fault?, hcontent]
  | faulty fault => simp [records, faults, dumps, record?, fault?, hcontent]
  | record record =>
    have hrecords : records [line] = [record] := by simp [records, record?, hcontent]
    have hfaults : faults [line] = [] := by simp [faults, fault?, hcontent]
    rw [hrecords, hfaults]
    exact apply_adds _ record

private theorem graphs_ofLines (lines : List String) :
    (ofLines lines).graphs = .ofDumps (dumps (records lines)) := by
  induction lines using List.reverseRecOn with
  | nil => rfl
  | append_singleton lines line ih =>
    rw [ofLines_concat, (addLine_adds _ line).1, ih, records_append, dumps_append,
      GraphSet.ofDumps, GraphSet.ofDumps, List.foldl_append]

private theorem boundaries_ofLines (lines : List String) :
    (ofLines lines).boundaries = (records lines).filterMap Record.boundary? := by
  induction lines using List.reverseRecOn with
  | nil => rfl
  | append_singleton lines line ih =>
    rw [ofLines_concat, (addLine_adds _ line).2.1, ih, records_append, List.filterMap_append]

private theorem counts_ofLines (lines : List String) :
    (ofLines lines).counts =
      ⟨lines.length, (records lines).length, (faults lines).length,
        (dumps (records lines)).length⟩ := by
  induction lines using List.reverseRecOn with
  | nil => rfl
  | append_singleton lines line ih =>
    rw [ofLines_concat, (addLine_adds _ line).2.2, ih, records_append, faults_append, dumps_append]
    simp only [List.length_append, List.length_singleton]

theorem lines_ofLines (lines : List String) : (ofLines lines).counts.lines = lines.length :=
  congrArg LineCounts.lines (counts_ofLines lines)

private theorem map_snd_dumps (lines : List String) :
    (dumps (records lines)).map Prod.snd = lines.filterMap dumpedFragment? := by
  rw [dumps, records, List.filterMap_filterMap, List.map_filterMap]
  rfl

/-- The stores and counters of a log agree with its lines and so with each other. -/
structure GatheredFrom (log : TaintLog) (lines : List String) : Prop where
  lines_counted : log.counts.lines = lines.length
  events_counted : log.counts.events = (records lines).length
  malformed_counted : log.counts.malformed = (faults lines).length
  dumps_counted : log.counts.dumpLines = log.graphs.fragmentCount
  /-- The graphs stand in the order in which they were dumped for the first time. -/
  ids_eq : log.graphs.ids = ((dumps (records lines)).map Prod.fst).eraseDups
  /-- Each graph has its own fragments, in the order of the log. -/
  get?_eq : ∀ g, log.graphs.get? g =
    if g ∈ log.graphs.ids then some (dumpedUnder g (dumps (records lines))) else none
  /-- The last dump of a node counts, under whatever graph. -/
  cached_eq : ∀ n, log.cache.get? n =
    (((dumps (records lines)).map Prod.snd).filter (·.node = n)).getLast?
  cached_iff : ∀ n, (log.cache.get? n).isSome = true ↔
    ∃ g own, log.graphs.get? g = some own ∧ ∃ f ∈ own, f.node = n
  boundaries_eq : log.boundaries = (records lines).filterMap Record.boundary?

/-- Every log agrees with the lines that it was fed. -/
theorem gatheredFrom_ofLines (lines : List String) : (ofLines lines).GatheredFrom lines := by
  have hcounts := counts_ofLines lines
  have hgraphs := graphs_ofLines lines
  have hids : (ofLines lines).graphs.ids = ((dumps (records lines)).map Prod.fst).eraseDups := by
    rw [hgraphs, GraphSet.ids_ofDumps]
  have hcached (n : Node) : (ofLines lines).cache.get? n =
      (((dumps (records lines)).map Prod.snd).filter (·.node = n)).getLast? := by
    rw [cached_ofLines, latestDump?, map_snd_dumps]
  refine {
    lines_counted := lines_ofLines lines
    events_counted := congrArg LineCounts.events hcounts
    malformed_counted := congrArg LineCounts.malformed hcounts
    dumps_counted := ?_
    ids_eq := hids
    get?_eq := fun g => ?_
    cached_eq := hcached
    cached_iff := fun n => ?_
    boundaries_eq := boundaries_ofLines lines }
  · rw [hcounts, hgraphs, GraphSet.fragmentCount_ofDumps]
  · rw [hids, hgraphs, GraphSet.get?_ofDumps]
    simp only [List.mem_eraseDups]
  · have hnode : (∃ g own, (ofLines lines).graphs.get? g = some own ∧ ∃ f ∈ own, f.node = n) ↔
        ∃ f ∈ (dumps (records lines)).map Prod.snd, f.node = n := by
      rw [hgraphs]
      simp only [← GraphSet.exists_mem_ofDumps]
      constructor
      · rintro ⟨g, own, hown, f, hf, hn⟩
        exact ⟨f, ⟨g, own, hown, hf⟩, hn⟩
      · rintro ⟨f, ⟨g, own, hown, hf⟩, hn⟩
        exact ⟨g, own, hown, f, hf, hn⟩
    rw [hnode, hcached, List.getLast?_isSome, ne_eq, List.filter_eq_nil_iff]
    simp only [decide_eq_true_eq, not_forall, not_not, exists_prop]

end TaintLog

end LeakTrace
