import LeakTrace.Fragment.Cache
import LeakTrace.GraphSet

namespace LeakTrace

/-- Follows the queued nodes breadth first. A fragment that is found is no longer unread; it is
added, and its predecessors are queued, unless it is there already. -/
def pull (unread : FragmentCache) (queue : List Node) (closed : List Fragment) :
    FragmentCache × List Fragment :=
  match queue with
  | [] => (unread, closed)
  | n :: queue =>
    match _h : unread.get? n with
    | none => pull unread queue closed
    | some f =>
      if f ∈ closed then pull (unread.erase n) queue closed
      else pull (unread.erase n) (queue ++ f.predecessors) (closed ++ [f])
termination_by (unread.size, queue.length)
decreasing_by
  · exact Prod.Lex.right _ (by simp)
  · exact Prod.Lex.left _ _ (FragmentCache.size_erase_lt _h)
  · exact Prod.Lex.left _ _ (FragmentCache.size_erase_lt _h)

/-- Adds one line of the graph and what follows from it. -/
def closeLine (state : FragmentCache × List Fragment) (line : Fragment) :
    FragmentCache × List Fragment :=
  if line ∈ state.2 then state else pull state.1 line.predecessors (state.2 ++ [line])

/-- The fragments of one graph, completed from the cache: each own fragment, followed by what the
cache knows about its predecessors, about the predecessors of that, and so on. A cached fragment is
taken at most once, so references that run in a cycle come to an end. -/
def closeGraph (cache : FragmentCache) (lines : List Fragment) : List Fragment :=
  (lines.foldl closeLine (cache, [])).2

/-- Closes every graph of the set. -/
def GraphSet.close (graphs : GraphSet) (cache : FragmentCache) : GraphSet :=
  graphs.map (closeGraph cache)

end LeakTrace
