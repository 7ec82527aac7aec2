import LeakTrace.Text.Cut
import LeakTrace.Text.Blank
import LeakTrace.Text.Decimal
import Std.Data.TreeMap
import Std.Data.TreeSet

namespace LeakTrace

/-- Identity of a dumped propagation graph. -/
abbrev GraphId := UInt64

/-- Logical time of a taint instance. -/
abbrev Time := Int64

/-- A taint instance: a statement, and the logical time at which the runtime created the instance
there. Nodes are ordered by time, and by statement where the times agree. -/
structure Node where
  time : Time
  statement : String
deriving DecidableEq, Repr

namespace Node

instance : Ord Node where
  compare := compareLex (compareOn Node.time) (compareOn Node.statement)

theorem compare_eq (a b : Node) :
    compare a b = (compare a.time b.time).then (compare a.statement b.statement) := rfl

instance : Std.TransOrd Node :=
  inferInstanceAs (Std.TransCmp (compareLex (compareOn Node.time) (compareOn Node.statement)))

instance : Std.LawfulEqOrd Node where
  eq_of_compare := by
    intro a b h
    rw [compare_eq, Ordering.then_eq_eq] at h
    have ht := Std.LawfulEqCmp.eq_of_compare h.1
    have hs := Std.LawfulEqCmp.eq_of_compare h.2
    cases a; cases b; simp_all

/-- The statement of the node that ends a predecessor chain. -/
def rootStatement : String := "STARTPATH"

/-- The mark inside the statement of a node that stands for a parcel or file boundary. -/
def boundaryMark : String := "(-2)"

def isRoot (n : Node) : Bool := n.statement = rootStatement

def isBoundary (n : Node) : Bool := Text.Has boundaryMark n.statement.toList

/-- The graphs that a boundary node refers to: the numbers that stand before the first parenthesis,
separated by dashes. Parts that are no graph id are skipped. -/
def boundaryTargets (n : Node) : List GraphId :=
  if n.isBoundary then
    ((Text.before '(' n.statement.toList).splitOn '-').filterMap fun part =>
      Text.readUInt64? (Text.trim part)
  else []

/-- The class of the statement, as in `Lcom/app/Main;->leak()V(7)`. -/
def className? (n : Node) : Option String :=
  (Text.cut "->" n.statement.toList).map fun (cls, _) => String.ofList cls

/-- The method name of the statement, without the parameter list. -/
def methodName? (n : Node) : Option String :=
  (Text.cut "->" n.statement.toList).map fun (_, method) =>
    String.ofList (Text.before '(' method)

/-- A map keyed by nodes loses an entry when a key of it is erased. -/
theorem size_erase_lt {α : Type} {m : Std.TreeMap Node α} {n : Node} {v : α}
    (h : m[n]? = some v) : (m.erase n).size < m.size := by
  have hm : m.contains n = true := by
    rw [Std.TreeMap.contains_eq_isSome_getElem?]
    exact Option.isSome_iff_exists.mpr ⟨v, h⟩
  have hp : m.size ≠ 0 := by
    intro h0
    have he : m.isEmpty = true := by simp [Std.TreeMap.isEmpty_eq_size_eq_zero, h0]
    rw [Std.TreeMap.contains_of_isEmpty he] at hm
    exact absurd hm (by decide)
  simp only [Std.TreeMap.size_erase, hm, if_true]
  omega

end Node

end LeakTrace
