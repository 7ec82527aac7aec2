import LeakTrace.Graph.Dot
import LeakTrace.Node.Descriptor

namespace LeakTrace

/-- What is derived from one source. -/
structure Subgraph where
  source : Node
  /-- The predecessors of each derived node. -/
  predecessors : Std.TreeMap Node (Std.TreeSet Node)

namespace Subgraph

def size (g : Subgraph) : Nat := g.predecessors.size

def isEmpty (g : Subgraph) : Bool := g.predecessors.isEmpty

/-- Every edge as predecessor and derived node, in the order of the derived nodes and then of the
predecessors. -/
def edges (g : Subgraph) : List (Node × Node) :=
  g.predecessors.toList.flatMap fun (derived, preds) => preds.toList.map fun p => (p, derived)

/-- The nodes derived directly from each node that has some, in ascending order. -/
def forward (g : Subgraph) : Std.TreeMap Node (List Node) :=
  g.edges.foldl (fun m (a, b) => m.insert a (m.getD a [] ++ [b])) ∅

/-- The derived nodes from which nothing is derived, in ascending order. -/
def terminals (g : Subgraph) : List Node :=
  let forward := g.forward
  g.predecessors.keys.filter fun n => !forward.contains n

/-- The nodes in the order in which a drawing meets them: the source, the derived nodes, and the
predecessors. A node that is met again is in the list again. -/
def encounters (g : Subgraph) : List Node :=
  g.source :: g.predecessors.keys ++ g.edges.map Prod.fst

/-- Declares each node that has no number yet under the next one, and gives all numbers. -/
def declare (numbers : Std.TreeMap Node Nat) : List Node → Std.TreeMap Node Nat × List Dot.Item
  | [] => (numbers, [])
  | n :: ns =>
    if numbers.contains n then declare numbers ns
    else
      let (all, items) := declare (numbers.insert n numbers.size) ns
      (all, .node numbers.size n.text :: items)

/-- An edge between nodes that have numbers. -/
def connect? (numbers : Std.TreeMap Node Nat) (edge : Node × Node) : Option Dot.Item :=
  match numbers[edge.1]?, numbers[edge.2]? with
  | some i, some j => some (.edge i j)
  | _, _ => none

/-- A drawing of the subgraph in the DOT language: all nodes, then all edges. -/
def toDot (g : Subgraph) (title : String) : String :=
  let (numbers, items) := declare ∅ g.encounters
  Dot.render title (items ++ g.edges.filterMap (connect? numbers))

end Subgraph

end LeakTrace
