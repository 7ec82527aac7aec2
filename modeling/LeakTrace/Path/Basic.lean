import LeakTrace.Node.Descriptor

namespace LeakTrace

/-- A path from a source to a sink. Each step is the first instance of its statement. -/
structure LeakPath where
  graph : GraphId
  source : Node
  sink : Node
  steps : List Node
  /-- Some node on the way was derived from several others. -/
  divergent : Bool
deriving DecidableEq, Repr

namespace LeakPath

def length (p : LeakPath) : Nat := p.steps.length

def statements (p : LeakPath) : List String := p.steps.map Node.statement

/-- The statement that the path starts with; a path without steps has none. -/
def start? (p : LeakPath) : Option String := p.statements.head?

/-- The name under which the path of the given rank is written. -/
def name (rank : Nat) (p : LeakPath) : String :=
  String.ofList <| "path_".toList ++ Text.digits rank ++ ['_'] ++ Text.ofUInt64 p.graph ++ ['_'] ++
    Text.ofInt64 p.source.time ++ ['_'] ++ Text.ofInt64 p.sink.time

end LeakPath

end LeakTrace
