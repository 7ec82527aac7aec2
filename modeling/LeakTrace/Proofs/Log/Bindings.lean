import LeakTrace.Log.TaintLog
import LeakTrace.Proofs.Fold

namespace LeakTrace

/-- One of the lines announces a source instance that was created at the time. -/
def Announced (lines : List String) (time : Time) : Prop :=
  ∃ line ∈ lines, ∃ n : Node, (Reading.ofLine line).content = .record (.origin n) ∧ n.time = time

def record? (line : String) : Option Record :=
  match (Reading.ofLine line).content with
  | .record record => some record
  | _ => none

theorem record?_eq_some_iff {line : String} {record : Record} :
    record? line = some record ↔ (Reading.ofLine line).content = .record record := by
  rw [record?]
  cases (Reading.ofLine line).content <;> simp

def Record.sink? : Record → Option Sink
  | .sink s => some s
  | _ => none

def Record.detail? : Record → Option String
  | .sourceDetail _ detail => some detail
  | _ => none

def Record.origin? : Record → Option Node
  | .origin n => some n
  | _ => none

def Record.dumpedGraph? : Record → Option GraphId
  | .dump graph _ => some graph
  | _ => none

/-- The method that a record names for the class. -/
def Record.target? (cls : String) : Record → Option String
  | .reflective c target => if c = cls then some target else none
  | _ => none

private theorem Record.origin?_eq_some_iff {record : Record} {n : Node} :
    record.origin? = some n ↔ record = .origin n := by
  cases record <;> simp [origin?]

/-- What the bindings answer once a line was taken in, by what they answered before and by the record of
the line, if it has one. -/
structure Bindings.Takes (b : Bindings) (record : Option Record) (b' : Bindings) : Prop where
  pendingSink : b'.pendingSink = (record.bind Record.sink?).or b.pendingSink
  sink? : ∀ g, b'.sink? g =
    (b.sink? g).or (if record.bind Record.dumpedGraph? = some g then b.pendingSink else none)
  pendingDetail : b'.pendingDetail = (record.bind Record.detail?).or b.pendingDetail
  detail? : ∀ statement, b'.detail? statement =
    if (record.bind Record.origin?).map Node.statement = some statement then
      b.pendingDetail.or (b.detail? statement)
    else b.detail? statement
  isSource : ∀ time, b'.isSource time =
    (b.isSource time || (record.bind Record.origin?).any (·.time = time))
  reflectiveTarget? : ∀ cls, b'.reflectiveTarget? cls =
    (record.bind (Record.target? cls)).or (b.reflectiveTarget? cls)

namespace Bindings

private theorem exists_noteDump (b : Bindings) (graph : GraphId) :
    ∃ sinks, b.noteDump graph = { b with sinks } := by
  rw [noteDump]
  split
  · exact ⟨b.sinks, rfl⟩
  · split
    · exact ⟨_, rfl⟩
    · exact ⟨b.sinks, rfl⟩

private theorem sink?_noteDump (b : Bindings) (graph g : GraphId) :
    (b.noteDump graph).sink? g =
      (b.sink? g).or (if graph = g then b.pendingSink else none) := by
  rw [noteDump]
  split
  · next hbound =>
    rw [Std.TreeMap.contains_eq_isSome_getElem?] at hbound
    obtain ⟨s, hs⟩ := Option.isSome_iff_exists.mp hbound
    by_cases hg : graph = g
    · subst hg
      simp [sink?, hs]
    · simp [hg]
  · next hfree =>
    have hnone : b.sinks[graph]? = none := by simpa using hfree
    by_cases hg : graph = g
    · subst hg
      cases hp : b.pendingSink with
      | none => simp [sink?, hnone]
      | some s => simp [sink?, hnone]
    · cases hp : b.pendingSink with
      | none => simp [hg]
      | some s => simp [sink?, Std.TreeMap.getElem?_insert, hg]

private theorem takes_noteDump (b : Bindings) (graph : GraphId) (f : Fragment) :
    b.Takes (some (.dump graph f)) (b.noteDump graph) := by
  obtain ⟨sinks, hdump⟩ := b.exists_noteDump graph
  have hsink := b.sink?_noteDump graph
  rw [hdump] at hsink ⊢
  refine ⟨rfl, fun g => ?_, rfl, fun _ => rfl, fun _ => (Bool.or_false _).symm, fun _ => rfl⟩
  simpa [Record.dumpedGraph?] using hsink g

private theorem takes_noteOrigin (b : Bindings) (n : Node) :
    b.Takes (some (.origin n)) (b.noteOrigin n) := by
  refine ⟨rfl, fun _ => Option.or_none.symm, rfl, fun statement => ?_, fun time => ?_, fun _ => rfl⟩
  · cases hpending : b.pendingDetail with
    | none => simp [noteOrigin, detail?, hpending]
    | some detail =>
      by_cases hstatement : n.statement = statement
      · simp [noteOrigin, detail?, hpending, Record.origin?, hstatement]
      · simp [noteOrigin, detail?, hpending, Record.origin?, hstatement, Std.TreeMap.getElem?_insert]
  · rw [isSource, noteOrigin, Std.TreeSet.contains_insert, Bool.or_comm]
    simp [isSource, Record.origin?, Bool.beq_eq_decide_eq, Std.LawfulEqCmp.compare_eq_iff_eq]

private theorem takes_noteReflective (b : Bindings) (cls target : String) :
    b.Takes (some (.reflective cls target)) (b.noteReflective cls target) := by
  refine ⟨rfl, fun _ => Option.or_none.symm, rfl, fun _ => rfl, fun _ => (Bool.or_false _).symm,
    fun c => ?_⟩
  by_cases hc : cls = c
  · simp [noteReflective, reflectiveTarget?, Record.target?, hc]
  · simp [noteReflective, reflectiveTarget?, Record.target?, hc, Std.TreeMap.getElem?_insert]

private theorem takes_none (b : Bindings) : b.Takes none b :=
  ⟨rfl, fun _ => Option.or_none.symm, rfl, fun _ => rfl, fun _ => (Bool.or_false _).symm,
    fun _ => rfl⟩

end Bindings

namespace TaintLog

variable {time : Time}

/-- A log is decided by what is read from its lines. -/
theorem ofLines_eq_foldl (lines : List String) :
    ofLines lines = (lines.map Reading.ofLine).foldl addReading empty := by
  rw [List.foldl_map]
  rfl

theorem ofLines_concat (lines : List String) (line : String) :
    ofLines (lines ++ [line]) = (ofLines lines).addLine line := by
  rw [ofLines, List.foldl_append]
  rfl

/-- Each record concerns one part of the bindings at most. -/
theorem takes_apply (log : TaintLog) (record : Record) :
    log.bindings.Takes (some record) (log.apply record).bindings := by
  cases record with
  | dump graph f => exact log.bindings.takes_noteDump graph f
  | origin n => exact log.bindings.takes_noteOrigin n
  | reflective cls target => exact log.bindings.takes_noteReflective cls target
  | sourceDetail _ _ | sink _ | boundary _ =>
    exact ⟨rfl, fun _ => Option.or_none.symm, rfl, fun _ => rfl, fun _ => (Bool.or_false _).symm,
      fun _ => rfl⟩

theorem takes_addLine (log : TaintLog) (line : String) :
    log.bindings.Takes (record? line) (log.addLine line).bindings := by
  have htakes (record : Record) (log' : TaintLog) (hsame : log'.bindings = log.bindings) :
      log.bindings.Takes (some record) (log'.apply record).bindings :=
    hsame ▸ takes_apply log' record
  rw [record?, addLine, addReading]
  cases (Reading.ofLine line).content with
  | ignored => exact log.bindings.takes_none
  | faulty fault => exact log.bindings.takes_none
  | record record => exact htakes record _ rfl

private theorem isSource_addLine (log : TaintLog) (line : String) :
    (log.addLine line).bindings.isSource time = true ↔
      log.bindings.isSource time = true ∨
        ∃ n, (Reading.ofLine line).content = .record (.origin n) ∧ n.time = time := by
  rw [(takes_addLine log line).isSource, Bool.or_eq_true, Option.any_eq_true]
  simp [Option.bind_eq_some_iff, record?_eq_some_iff, Record.origin?_eq_some_iff]

theorem isSource_ofLines {lines : List String} :
    (ofLines lines).bindings.isSource time = true ↔ Announced lines time := by
  have hfold := foldl_iff (Q := fun log => log.bindings.isSource time = true)
    isSource_addLine lines empty
  have hempty : empty.bindings.isSource time = false := by
    simp [empty, Bindings.empty, Bindings.isSource]
  rw [hempty] at hfold
  exact hfold.trans (by simp [Announced])

end TaintLog

end LeakTrace
