import LeakTrace.Proofs.Graph.Closure
import LeakTrace.Proofs.Log.Contents

namespace LeakTrace

/-- The line carries no mark, or it carries one and cannot be read. -/
def IsNoise (line : String) : Prop :=
  (Reading.ofLine line).content = .ignored ∨
    ∃ fault, (Reading.ofLine line).content = .faulty fault

/-- Both hold the same entries, in whatever trees. -/
structure Bindings.Agree (b b' : Bindings) : Prop where
  pendingSink : b.pendingSink = b'.pendingSink
  sinks : b.sinks.Equiv b'.sinks
  pendingDetail : b.pendingDetail = b'.pendingDetail
  details : b.details.Equiv b'.details
  sourceTimes : b.sourceTimes.Equiv b'.sourceTimes
  reflective : b.reflective.Equiv b'.reflective

namespace Bindings

variable {b b' c : Bindings}

theorem Agree.refl (b : Bindings) : Agree b b := ⟨rfl, .rfl, rfl, .rfl, .rfl, .rfl⟩

theorem Agree.symm (h : Agree b b') : Agree b' b :=
  ⟨h.pendingSink.symm, h.sinks.symm, h.pendingDetail.symm, h.details.symm, h.sourceTimes.symm,
    h.reflective.symm⟩

theorem Agree.trans (h : Agree b b') (h' : Agree b' c) : Agree b c :=
  ⟨h.pendingSink.trans h'.pendingSink, h.sinks.trans h'.sinks,
    h.pendingDetail.trans h'.pendingDetail, h.details.trans h'.details,
    h.sourceTimes.trans h'.sourceTimes, h.reflective.trans h'.reflective⟩

theorem Agree.sink? (h : Agree b b') (g : GraphId) : b.sink? g = b'.sink? g := h.sinks.getElem?_eq

theorem Agree.isSource (h : Agree b b') (time : Time) : b.isSource time = b'.isSource time :=
  h.sourceTimes.contains_eq

theorem Agree.noteSink (h : Agree b b') (s : Sink) : Agree (b.noteSink s) (b'.noteSink s) :=
  ⟨rfl, h.sinks, h.pendingDetail, h.details, h.sourceTimes, h.reflective⟩

theorem Agree.noteDetail (h : Agree b b') (detail : String) :
    Agree (b.noteDetail detail) (b'.noteDetail detail) :=
  ⟨h.pendingSink, h.sinks, rfl, h.details, h.sourceTimes, h.reflective⟩

theorem Agree.noteReflective (h : Agree b b') (className target : String) :
    Agree (b.noteReflective className target) (b'.noteReflective className target) :=
  ⟨h.pendingSink, h.sinks, h.pendingDetail, h.details, h.sourceTimes,
    h.reflective.insert className target⟩

theorem Agree.noteOrigin (h : Agree b b') (n : Node) :
    Agree (b.noteOrigin n) (b'.noteOrigin n) := by
  refine ⟨h.pendingSink, h.sinks, h.pendingDetail, ?_, h.sourceTimes.insert n.time, h.reflective⟩
  rw [Bindings.noteOrigin, Bindings.noteOrigin, h.pendingDetail]
  cases b'.pendingDetail with
  | none => exact h.details
  | some detail => exact h.details.insert n.statement detail

theorem Agree.noteDump (h : Agree b b') (graph : GraphId) :
    Agree (b.noteDump graph) (b'.noteDump graph) := by
  rw [Bindings.noteDump, Bindings.noteDump, h.sinks.contains_eq, h.pendingSink]
  split
  · exact h
  · cases b'.pendingSink with
    | none => exact h
    | some s =>
      exact ⟨rfl, h.sinks.insert graph s, h.pendingDetail, h.details, h.sourceTimes,
        h.reflective⟩

private theorem insert_insert_equiv {α β : Type} [Ord α] [Std.TransOrd α] [Std.LawfulEqOrd α]
    (m : Std.TreeMap α β) (k : α) (v : β) : ((m.insert k v).insert k v).Equiv (m.insert k v) := by
  refine Std.TreeMap.Equiv.of_forall_constGet?_eq fun a => ?_
  rw [Std.TreeMap.getElem?_insert, Std.TreeMap.getElem?_insert]
  split
  · rfl
  · rfl

private theorem agree_noteReflective_twice (b : Bindings) (className target : String) :
    Agree ((b.noteReflective className target).noteReflective className target)
      (b.noteReflective className target) :=
  ⟨rfl, .rfl, rfl, .rfl, .rfl, insert_insert_equiv b.reflective className target⟩

private theorem agree_noteOrigin_twice (b : Bindings) (n : Node) :
    Agree ((b.noteOrigin n).noteOrigin n) (b.noteOrigin n) := by
  refine ⟨rfl, .rfl, rfl, ?_, ?_, .rfl⟩
  · rw [noteOrigin, noteOrigin]
    cases b.pendingDetail with
    | none => exact .rfl
    | some detail => exact insert_insert_equiv b.details n.statement detail
  · refine Std.TreeSet.Equiv.of_forall_contains_eq fun time => ?_
    simp [noteOrigin, Std.TreeSet.contains_insert]

private theorem noteDump_twice (b : Bindings) (graph : GraphId) :
    (b.noteDump graph).noteDump graph = b.noteDump graph := by
  by_cases hbound : b.sinks.contains graph = true
  · rw [noteDump, noteDump, if_pos hbound, if_pos hbound]
  · cases hp : b.pendingSink with
    | none => simp [noteDump, hbound, hp]
    | some s => simp [noteDump, hbound, hp]

end Bindings

namespace TaintLog

/-- What a log tells. The lines of a graph matter by what they close to. -/
structure Alike (log log' : TaintLog) : Prop where
  ids : log.graphs.ids = log'.graphs.ids
  closes : ∀ g state,
    (log.fragments g).foldl closeLine state = (log'.fragments g).foldl closeLine state
  cached : ∀ n, log.cache.get? n = log'.cache.get? n
  boundaries : ∀ g, g ∈ log.boundaries ↔ g ∈ log'.boundaries
  bindings : log.bindings.Agree log'.bindings

variable {log log' next : TaintLog}

theorem Alike.refl (log : TaintLog) : Alike log log :=
  ⟨rfl, fun _ _ => rfl, fun _ => rfl, fun _ => .rfl, .refl log.bindings⟩

theorem Alike.symm (h : Alike log log') : Alike log' log :=
  ⟨h.ids.symm, fun g state => (h.closes g state).symm, fun n => (h.cached n).symm,
    fun g => (h.boundaries g).symm, h.bindings.symm⟩

theorem Alike.trans (h : Alike log log') (h' : Alike log' next) : Alike log next :=
  ⟨h.ids.trans h'.ids, fun g state => (h.closes g state).trans (h'.closes g state),
    fun n => (h.cached n).trans (h'.cached n), fun g => (h.boundaries g).trans (h'.boundaries g),
    h.bindings.trans h'.bindings⟩

private theorem fragments_apply_dump (log : TaintLog) (graph g : GraphId) (f : Fragment) :
    (log.apply (.dump graph f)).fragments g =
      if graph = g then log.fragments g ++ [f] else log.fragments g := by
  rw [fragments, apply, GraphSet.get?_push]
  split
  · next hg =>
    subst hg
    rfl
  · rfl

private theorem ids_apply_dump (log : TaintLog) (graph : GraphId) (f : Fragment) :
    (log.apply (.dump graph f)).graphs.ids =
      if graph ∈ log.graphs.ids then log.graphs.ids else log.graphs.ids ++ [graph] :=
  GraphSet.ids_push log.graphs graph f

/-- A record keeps logs alike. -/
theorem Alike.apply (h : Alike log log') (record : Record) :
    Alike (log.apply record) (log'.apply record) := by
  cases record with
  | sourceDetail statement detail =>
    exact ⟨h.ids, h.closes, h.cached, h.boundaries, h.bindings.noteDetail detail⟩
  | origin node => exact ⟨h.ids, h.closes, h.cached, h.boundaries, h.bindings.noteOrigin node⟩
  | reflective className target =>
    exact ⟨h.ids, h.closes, h.cached, h.boundaries, h.bindings.noteReflective className target⟩
  | sink sink => exact ⟨h.ids, h.closes, h.cached, h.boundaries, h.bindings.noteSink sink⟩
  | boundary graph =>
    refine ⟨h.ids, h.closes, h.cached, fun g => ?_, h.bindings⟩
    simp [TaintLog.apply, h.boundaries g]
  | dump graph fragment =>
    refine ⟨?_, fun g state => ?_, fun n => ?_, h.boundaries, h.bindings.noteDump graph⟩
    · rw [ids_apply_dump, ids_apply_dump, h.ids]
    · rw [fragments_apply_dump, fragments_apply_dump]
      split
      · rw [List.foldl_append, List.foldl_append, h.closes]
      · exact h.closes g state
    · rw [TaintLog.apply, TaintLog.apply, FragmentCache.get?_record, FragmentCache.get?_record,
        h.cached]

private theorem alike_apply_twice (log : TaintLog) (record : Record) :
    Alike ((log.apply record).apply record) (log.apply record) := by
  cases record with
  | sourceDetail statement detail => exact .refl _
  | sink sink => exact .refl _
  | origin node =>
    exact ⟨rfl, fun _ _ => rfl, fun _ => rfl, fun _ => .rfl,
      Bindings.agree_noteOrigin_twice log.bindings node⟩
  | reflective className target =>
    exact ⟨rfl, fun _ _ => rfl, fun _ => rfl, fun _ => .rfl,
      Bindings.agree_noteReflective_twice log.bindings className target⟩
  | boundary graph =>
    refine ⟨rfl, fun _ _ => rfl, fun _ => rfl, fun g => ?_, .refl _⟩
    simp [TaintLog.apply]
  | dump graph fragment =>
    refine ⟨?_, fun g state => ?_, fun n => ?_, fun _ => .rfl, ?_⟩
    · have hin : graph ∈ (log.apply (.dump graph fragment)).graphs.ids :=
        GraphSet.mem_ids_push.mpr (.inr rfl)
      rw [ids_apply_dump, if_pos hin]
    · rw [fragments_apply_dump]
      split
      · next hg =>
        rw [fragments_apply_dump, if_pos hg, List.foldl_append]
        exact if_pos (subset_foldl_closeLine state _ (by simp))
      · rfl
    · rw [TaintLog.apply, FragmentCache.get?_record]
      split
      · next hn => rw [TaintLog.apply, FragmentCache.get?_record, if_pos hn]
      · rfl
    · have htwice : ((log.apply (.dump graph fragment)).apply (.dump graph fragment)).bindings =
          (log.apply (.dump graph fragment)).bindings := Bindings.noteDump_twice log.bindings graph
      rw [htwice]
      exact .refl _

private theorem alike_counted (log : TaintLog) (statements : StatementPool) (counts : LineCounts) :
    Alike { log with statements := statements, counts := counts } log :=
  ⟨rfl, fun _ _ => rfl, fun _ => rfl, fun _ => .rfl, .refl log.bindings⟩

/-- A line tells what its record tells. -/
theorem alike_addLine (log : TaintLog) {line : String} {record : Record}
    (h : (Reading.ofLine line).content = .record record) :
    Alike (log.addLine line) (log.apply record) := by
  rw [addLine, addReading, h]
  exact (alike_counted log _ _).apply record

private theorem alike_addLine_of_noise (log : TaintLog) {line : String} (h : IsNoise line) :
    Alike (log.addLine line) log := by
  rw [addLine, addReading]
  rcases h with hignored | ⟨fault, hfaulty⟩
  · rw [hignored]
    exact alike_counted log _ _
  · rw [hfaulty]
    exact alike_counted log _ _

private theorem isNoise_or_record (line : String) :
    IsNoise line ∨ ∃ record, (Reading.ofLine line).content = .record record := by
  rw [IsNoise]
  cases (Reading.ofLine line).content with
  | ignored => simp
  | faulty fault => simp
  | record record => simp

theorem Alike.addLine (h : Alike log log') (line : String) :
    Alike (log.addLine line) (log'.addLine line) := by
  rcases isNoise_or_record line with hnoise | ⟨record, hrecord⟩
  · exact (alike_addLine_of_noise log hnoise).trans
      (h.trans (alike_addLine_of_noise log' hnoise).symm)
  · exact (alike_addLine log hrecord).trans
      ((h.apply record).trans (alike_addLine log' hrecord).symm)

private theorem alike_addLine_twice (log : TaintLog) (line : String) :
    Alike ((log.addLine line).addLine line) (log.addLine line) := by
  rcases isNoise_or_record line with hnoise | ⟨record, hrecord⟩
  · exact alike_addLine_of_noise _ hnoise
  · have honce := alike_addLine log hrecord
    have htwice := (alike_addLine _ hrecord).trans (honce.apply record)
    exact htwice.trans ((alike_apply_twice log record).trans honce.symm)

private theorem Alike.addLines (h : Alike log log') (lines : List String) :
    Alike (lines.foldl TaintLog.addLine log) (lines.foldl TaintLog.addLine log') := by
  induction lines generalizing log log' with
  | nil => exact h
  | cons line lines ih => exact ih (h.addLine line)

/-- A line in the middle makes no difference if it is noise, or repeats the line before it. -/
theorem alike_ofLines_insert (before after : List String) {line : String}
    (h : IsNoise line ∨ before.getLast? = some line) :
    Alike (ofLines (before ++ line :: after)) (ofLines (before ++ after)) := by
  rw [ofLines, ofLines, List.foldl_append, List.foldl_append, List.foldl_cons]
  refine Alike.addLines ?_ after
  rcases h with hnoise | hlast
  · exact alike_addLine_of_noise _ hnoise
  · obtain ⟨earlier, rfl⟩ := List.getLast?_eq_some_iff.mp hlast
    rw [List.foldl_append, List.foldl_cons, List.foldl_nil]
    exact alike_addLine_twice _ line

end TaintLog

end LeakTrace
