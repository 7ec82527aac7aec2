import LeakTrace.Config
import LeakTrace.Fragment
import LeakTrace.Graph.Subgraph
import LeakTrace.Log.Bindings

namespace LeakTrace

/-- The edges of a list of fragments, in the direction that taint travelled, and the nodes at which
a flow starts. -/
structure FlowGraph where
  /-- The nodes derived directly from each node that has some. -/
  successors : Std.TreeMap Node (Std.TreeSet Node)
  sources : Std.TreeSet Node
  /-- Edges left out because they touch a boundary node or lead from a node to itself. -/
  droppedEdges : Nat

/-- The node that a line's predecessors lead to. Where the line before ended in the framework and
this one starts there with another statement, they are taken as one flow: the line's node gives way
to the left node of the line before. -/
def Config.derivedNode (config : Config) (previousLeft : Option Node) (line : Fragment) : Node :=
  match previousLeft with
  | some previous =>
    if config.repairFrameworkLinks && previous.statement ≠ line.node.statement
        && config.isFramework previous.statement && config.isFramework line.node.statement
    then previous
    else line.node
  | none => line.node

/-- Each line as a derived node and its predecessors; `previousLeft` is the left node of the line
before the first one given. -/
def Config.derivations (config : Config) :
    Option Node → List Fragment → List (Node × List Node)
  | _, [] => []
  | previousLeft, line :: lines =>
    (config.derivedNode previousLeft line, line.predecessors) ::
      config.derivations (some line.left) lines

namespace FlowGraph

def empty : FlowGraph := ⟨∅, ∅, 0⟩

/-- Marks a node as a source if one was recorded at its time. Roots and boundary nodes are none. -/
def noteSource (bindings : Bindings) (g : FlowGraph) (n : Node) : FlowGraph :=
  if !n.isRoot && !n.isBoundary && bindings.isSource n.time then
    { g with sources := g.sources.insert n }
  else g

/-- The edge from `a` to `b` cannot be part of a flow. -/
def isDropped (a b : Node) : Bool := a.isBoundary || b.isBoundary || a = b

/-- Adds the edge from `a` to `b`. An edge from a root says that `b` is an origin, and is no edge. -/
def addEdge (g : FlowGraph) (a b : Node) : FlowGraph :=
  if a.isRoot then g
  else if isDropped a b then { g with droppedEdges := g.droppedEdges + 1 }
  else { g with successors := g.successors.insert a ((g.successors.getD a ∅).insert b) }

def addDerivation (bindings : Bindings) (g : FlowGraph) (derivation : Node × List Node) :
    FlowGraph :=
  derivation.2.foldl (fun g p => (g.noteSource bindings p).addEdge p derivation.1)
    (g.noteSource bindings derivation.1)

/-- The flow graph of a list of fragments. -/
def build (config : Config) (bindings : Bindings) (lines : List Fragment) : FlowGraph :=
  (config.derivations none lines).foldl (addDerivation bindings) empty

def size (g : FlowGraph) : Nat := g.successors.size

def isEmpty (g : FlowGraph) : Bool := g.successors.isEmpty

/-- Adds the edges from `a` to each of `bs` to a map from derived nodes to their predecessors. -/
def reverseEdges (predecessors : Std.TreeMap Node (Std.TreeSet Node)) (a : Node)
    (bs : List Node) : Std.TreeMap Node (Std.TreeSet Node) :=
  bs.foldl (fun m b => m.insert b ((m.getD b ∅).insert a)) predecessors

/-- Reverses every edge that leaves a node reachable from the stacked ones. A node whose successors
were read is no longer unread, so each is read once. -/
def collect (unread : Std.TreeMap Node (Std.TreeSet Node)) (stack : List Node)
    (predecessors : Std.TreeMap Node (Std.TreeSet Node)) :
    Std.TreeMap Node (Std.TreeSet Node) :=
  match stack with
  | [] => predecessors
  | n :: stack =>
    match _h : unread[n]? with
    | none => collect unread stack predecessors
    | some next =>
      collect (unread.erase n) (next.toList ++ stack) (reverseEdges predecessors n next.toList)
termination_by (unread.size, stack.length)
decreasing_by
  · exact Prod.Lex.right _ (by simp)
  · exact Prod.Lex.left _ _ (Node.size_erase_lt _h)

/-- The part of the graph that is reachable from a node; there is none if the node has no
successors. -/
def partition? (g : FlowGraph) (source : Node) : Option Subgraph :=
  if g.successors.contains source then some ⟨source, collect g.successors [source] ∅⟩ else none

end FlowGraph

end LeakTrace
