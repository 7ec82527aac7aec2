import LeakTrace.Config
import LeakTrace.Graph.Subgraph
import LeakTrace.Log.Sink
import LeakTrace.Path.Basic

namespace LeakTrace

/-- What the way from a source to a sink comes to. -/
inductive Synthesis
  | path (path : LeakPath)
  /-- The sink's statement was not met. -/
  | unreachable
  /-- A derived node is older than the source. -/
  | causalViolation (node : Node)
deriving DecidableEq, Repr

/-- The terminal that counts as the sink of a subgraph: the first that matches the recorded sink;
where none does, the first or the last of all. -/
def Subgraph.selectSink? (g : Subgraph) (recorded : Option Sink) (fallback : SinkSelection) :
    Option Node :=
  let matching := recorded.bind fun s => g.terminals.find? s.matches?
  matching.or <| match fallback with
    | .first => g.terminals.head?
    | .last => g.terminals.getLast?

/-- What a walk has met. -/
structure Walk where
  /-- The earliest time at which each statement was met. -/
  firstSeen : Std.TreeMap String Time
  divergent : Bool

namespace Walk

def empty : Walk := ⟨∅, false⟩

/-- Meets a node. -/
def meet (g : Subgraph) (w : Walk) (n : Node) : Walk where
  firstSeen := w.firstSeen.insert n.statement <|
    match w.firstSeen[n.statement]? with
    | some t => min t n.time
    | none => n.time
  divergent := w.divergent || (g.predecessors.getD n ∅).size > 1

/-- Queues the derived nodes whose time was not met before. The first one that is older than the
source ends the walk. -/
def enqueue (source : Node) : List Node → Std.TreeSet Time → List Node →
    Except Node (Std.TreeSet Time × List Node)
  | [], unseen, queue => .ok (unseen, queue)
  | n :: ns, unseen, queue =>
    if n.time < source.time then .error n
    else if unseen.contains n.time then enqueue source ns (unseen.erase n.time) (queue ++ [n])
    else enqueue source ns unseen queue

private theorem size_add_length_of_enqueue {source : Node} {ns : List Node}
    {unseen unseen' : Std.TreeSet Time}
    {queue queue' : List Node} (h : enqueue source ns unseen queue = .ok (unseen', queue')) :
    unseen'.size + queue'.length = unseen.size + queue.length := by
  induction ns generalizing unseen queue with
  | nil =>
    obtain ⟨rfl, rfl⟩ : unseen = unseen' ∧ queue = queue' := by simpa [enqueue] using h
    rfl
  | cons n ns ih =>
    rw [enqueue] at h
    split at h
    · exact absurd h (by simp)
    · split at h
      · next hc =>
        have hp : unseen.size ≠ 0 := by
          intro h0
          have he : unseen.isEmpty = true := by simp [Std.TreeSet.isEmpty_eq_size_eq_zero, h0]
          rw [Std.TreeSet.contains_of_isEmpty he] at hc
          exact absurd hc (by decide)
        rw [ih h, Std.TreeSet.size_erase, if_pos hc, List.length_append, List.length_singleton]
        omega
      · exact ih h

/-- Walks the subgraph breadth first from the queued nodes and does not go beyond the sink. -/
def run (g : Subgraph) (forward : Std.TreeMap Node (List Node)) (sink : Node)
    (unseen : Std.TreeSet Time) (queue : List Node) (w : Walk) : Except Node Walk :=
  match queue with
  | [] => .ok w
  | n :: queue =>
    if n = sink then run g forward sink unseen queue (w.meet g n)
    else
      match _h : enqueue g.source (forward.getD n []) unseen queue with
      | .error violation => .error violation
      | .ok (unseen', queue') => run g forward sink unseen' queue' (w.meet g n)
termination_by unseen.size + queue.length
decreasing_by
  · simp
  · have := size_add_length_of_enqueue _h
    simp only [List.length_cons]
    omega

/-- The statements met, each at its earliest time, from the earliest to the latest. -/
def steps (w : Walk) : List Node :=
  (Std.TreeSet.ofList (w.firstSeen.toList.map fun (s, t) => Node.mk t s)).toList

end Walk

/-- The steps up to the first one with the given statement, which is kept. -/
def cutAfter (statement : String) : List Node → List Node
  | [] => []
  | n :: ns => if n.statement = statement then [n] else n :: cutAfter statement ns

/-- The times at which the walk may still meet a node: those of all derived nodes, except the time
of the source, which is met first. -/
def Subgraph.derivedTimes (g : Subgraph) : Std.TreeSet Time :=
  (Std.TreeSet.ofList (g.predecessors.keys.map Node.time)).erase g.source.time

/-- The path from the source of a subgraph to the sink: the statements that the walk met, in the
order of their earliest times, up to that of the sink. A derived node that is older than the source
breaks the recorded order, and there is no path then. -/
def Subgraph.synthesize (g : Subgraph) (graph : GraphId) (sink : Node) : Synthesis :=
  let forward := g.forward
  if !forward.contains g.source then .unreachable
  else match Walk.run g forward sink g.derivedTimes [g.source] .empty with
    | .error node => .causalViolation node
    | .ok w =>
      if w.firstSeen.contains sink.statement then
        .path ⟨graph, g.source, sink, cutAfter sink.statement w.steps, w.divergent⟩
      else .unreachable

end LeakTrace
