import LeakTrace.GraphSet

namespace LeakTrace

/-- Counters of splicing. -/
structure SpliceCounts where
  /-- References that were replaced by the graph they name. -/
  inlined : Nat
  /-- References to a graph that holds nothing. -/
  unknown : Nat
  /-- References to a graph that is itself being spliced. -/
  cyclic : Nat
  /-- Graphs that were left out because they stand beyond a boundary. -/
  removed : Nat
deriving DecidableEq, Repr

/-- Graphs still to be spliced, those that are, and the counters so far. -/
structure Splicer where
  raw : GraphSet
  done : Std.TreeMap GraphId (List Fragment)
  counts : SpliceCounts

/-- The targets that the boundary lines name, in order. -/
def boundaryReferences (lines : List Fragment) : List GraphId :=
  lines.flatMap fun line => line.node.boundaryTargets

/-- The node that read from the boundary, judged by the line before it: the left node if that is
an ordinary one, else the right node, else the line's own. -/
def consumer (previous : Fragment) : Node :=
  if !previous.left.isBoundary && !previous.left.isRoot then previous.left
  else previous.right.getD previous.node

/-- Ties the first line of a nested graph to the line before the boundary. -/
def bridge (previous : Option Fragment) (first : Fragment) : List Fragment :=
  (previous.map fun p => ⟨consumer p, first.node, none⟩).toList

namespace Splicer

def ofGraphs (graphs : GraphSet) : Splicer := ⟨graphs, ∅, ⟨0, 0, 0, 0⟩⟩

def result? (s : Splicer) (graph : GraphId) : Option (List Fragment) := s.done[graph]?

/-- The lines that stand for one reference, and the counter it falls under. A graph that is still
raw when it is referred to is on the way to itself. -/
def inline (s : Splicer) (previous : Option Fragment) (counts : SpliceCounts) (target : GraphId) :
    List Fragment × SpliceCounts :=
  match s.result? target with
  | some (first :: rest) =>
    (bridge previous first ++ first :: rest, { counts with inlined := counts.inlined + 1 })
  | _ =>
    if s.raw.contains target then ([], { counts with cyclic := counts.cyclic + 1 })
    else ([], { counts with unknown := counts.unknown + 1 })

/-- The lines that stand for the references of one boundary line. -/
def inlineAll (s : Splicer) (previous : Option Fragment) :
    SpliceCounts → List GraphId → List Fragment × SpliceCounts
  | counts, [] => ([], counts)
  | counts, target :: targets =>
    let (here, counts) := s.inline previous counts target
    let (rest, counts) := s.inlineAll previous counts targets
    (here ++ rest, counts)

/-- Replaces the boundary lines; `previous` is the raw line before the first one given. -/
def expand (s : Splicer) (previous : Option Fragment) :
    SpliceCounts → List Fragment → List Fragment × SpliceCounts
  | counts, [] => ([], counts)
  | counts, line :: lines =>
    let (here, counts) :=
      if line.node.isBoundary then s.inlineAll previous counts line.node.boundaryTargets
      else ([line], counts)
    let (rest, counts) := s.expand (some line) counts lines
    (here ++ rest, counts)

/-- Splices one graph, of which all references are done that can be. -/
def build (s : Splicer) (graph : GraphId) (lines : List Fragment) : Splicer :=
  let (out, counts) := s.expand none s.counts lines
  ⟨s.raw.remove graph, s.done.insert graph out, counts⟩

/-- Splices a graph after the graphs that it refers to, except those that led to it. The graphs that
are not on the path to this one become fewer on the way down. -/
def enter (offPath : List GraphId) (s : Splicer) (graph : GraphId) : Splicer :=
  if s.done.contains graph then s
  else if _h : graph ∈ offPath then
    match s.raw.get? graph with
    | none => s
    | some lines =>
      let s := (boundaryReferences lines).foldl (fun s t => enter (offPath.erase graph) s t) s
      s.build graph lines
  else s
termination_by offPath.length
decreasing_by
  rw [List.length_erase_of_mem _h]
  have := List.length_pos_of_mem _h
  omega

/-- Splices one graph and all that it nests. Where a graph was written into a parcel or a file, it
holds a boundary node that names the graphs dumped on the other side: these stand, spliced
themselves, in the place of the boundary line. -/
def splice (s : Splicer) (graph : GraphId) : Splicer := s.enter s.raw.ids graph

/-- Moves one spliced graph to the result, or out of sight if it stands beyond a boundary. A graph
is moved once. -/
def collect (boundaries : List GraphId) (state : Splicer × GraphSet) (graph : GraphId) :
    Splicer × GraphSet :=
  let (s, graphs) := state
  match s.result? graph with
  | none => state
  | some lines =>
    let done := s.done.erase graph
    if graph ∈ boundaries then
      ({ s with done := done, counts := { s.counts with removed := s.counts.removed + 1 } }, graphs)
    else ({ s with done := done }, graphs.insert graph lines)

/-- Splices the graphs of `order` and keeps those that do not stand beyond a boundary. -/
def spliceAll (s : Splicer) (order boundaries : List GraphId) : GraphSet × SpliceCounts :=
  let (s, graphs) := order.foldl (collect boundaries) (order.foldl splice s, .empty)
  (graphs, s.counts)

end Splicer

end LeakTrace
