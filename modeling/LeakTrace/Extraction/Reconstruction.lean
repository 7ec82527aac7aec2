import LeakTrace.Graph.Closure
import LeakTrace.Graph.Splice
import LeakTrace.Log.TaintLog

namespace LeakTrace

/-- What is searched for paths: the graphs of a log, closed and spliced, without those that stand
beyond a boundary. -/
structure Reconstruction where
  graphs : GraphSet
  bindings : Bindings
  parse : LineCounts
  splice : SpliceCounts

/-- The graphs of a log, closed against its cache. -/
def TaintLog.closedGraphs (log : TaintLog) : GraphSet := log.graphs.close log.cache

def TaintLog.reconstruct (log : TaintLog) : Reconstruction :=
  let (graphs, counts) :=
    (Splicer.ofGraphs log.closedGraphs).spliceAll log.graphs.ids log.boundaries
  ⟨graphs, log.bindings, log.counts, counts⟩

end LeakTrace
