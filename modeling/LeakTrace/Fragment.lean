import LeakTrace.Node.Descriptor

namespace LeakTrace

/-- A propagation record: the node was derived from the left node and, for a binary operation, from
the right node as well. -/
structure Fragment where
  node : Node
  left : Node
  right : Option Node
deriving DecidableEq, Repr

namespace Fragment

/-- The nodes that the fragment's node was derived from, left before right. -/
def predecessors (f : Fragment) : List Node := f.left :: f.right.toList

def text (f : Fragment) : String :=
  let head := f.node.text ++ " <- " ++ f.left.text
  match f.right with
  | some right => head ++ ", " ++ right.text
  | none => head

@[simp] theorem mem_predecessors {f : Fragment} {n : Node} :
    n ∈ f.predecessors ↔ n = f.left ∨ f.right = some n := by
  cases h : f.right <;> simp [predecessors, h, eq_comm]

end Fragment

end LeakTrace
