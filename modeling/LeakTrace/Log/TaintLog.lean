import LeakTrace.Fragment.Cache
import LeakTrace.GraphSet
import LeakTrace.Log.Bindings
import LeakTrace.Log.Reading

namespace LeakTrace

/-- The distinct statement texts of a log. -/
structure StatementPool where
  texts : Std.TreeSet String

namespace StatementPool

def empty : StatementPool := ⟨∅⟩

def add (pool : StatementPool) (statement : String) : StatementPool :=
  ⟨pool.texts.insert statement⟩

def size (pool : StatementPool) : Nat := pool.texts.size

def isEmpty (pool : StatementPool) : Bool := pool.texts.isEmpty

end StatementPool

/-- Line counters of one log. -/
structure LineCounts where
  lines : Nat
  events : Nat
  malformed : Nat
  dumpLines : Nat
deriving DecidableEq, Repr

/-- All that one log says, gathered line by line. A line that cannot be read is counted and left
out. -/
structure TaintLog where
  statements : StatementPool
  graphs : GraphSet
  cache : FragmentCache
  /-- The graphs announced as dumped beyond a boundary, in order. -/
  boundaries : List GraphId
  bindings : Bindings
  counts : LineCounts

namespace TaintLog

def empty : TaintLog := ⟨.empty, .empty, .empty, [], .empty, ⟨0, 0, 0, 0⟩⟩

instance : Inhabited TaintLog := ⟨empty⟩

/-- Takes in one record. -/
def apply (log : TaintLog) : Record → TaintLog
  | .sourceDetail _ detail => { log with bindings := log.bindings.noteDetail detail }
  | .origin node => { log with bindings := log.bindings.noteOrigin node }
  | .reflective className target =>
    { log with bindings := log.bindings.noteReflective className target }
  | .sink sink => { log with bindings := log.bindings.noteSink sink }
  | .dump graph fragment =>
    { log with
      counts := { log.counts with dumpLines := log.counts.dumpLines + 1 }
      bindings := log.bindings.noteDump graph
      cache := log.cache.record fragment
      graphs := log.graphs.push graph fragment }
  | .boundary graph => { log with boundaries := log.boundaries ++ [graph] }

/-- Takes in what was read from one line. -/
def addReading (log : TaintLog) (r : Reading) : TaintLog :=
  let counts := { log.counts with lines := log.counts.lines + 1 }
  let log := { log with statements := r.statements.foldl StatementPool.add log.statements }
  match r.content with
  | .ignored => { log with counts := counts }
  | .faulty _ => { log with counts := { counts with malformed := counts.malformed + 1 } }
  | .record record =>
    { log with counts := { counts with events := counts.events + 1 } }.apply record

def addLine (log : TaintLog) (line : String) : TaintLog := log.addReading (Reading.ofLine line)

def ofLines (lines : List String) : TaintLog := lines.foldl addLine empty

end TaintLog

end LeakTrace
