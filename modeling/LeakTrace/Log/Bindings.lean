import LeakTrace.Log.Sink

namespace LeakTrace

/-- What a log says about sources and sinks. -/
structure Bindings where
  /-- The latest sink. -/
  pendingSink : Option Sink
  sinks : Std.TreeMap GraphId Sink
  /-- The latest source description. -/
  pendingDetail : Option String
  /-- The description of each source statement. -/
  details : Std.TreeMap String String
  /-- The times at which sources created instances. -/
  sourceTimes : Std.TreeSet Time
  /-- The source that each class, by its dotted name, invoked by reflection. -/
  reflective : Std.TreeMap String String

namespace Bindings

def empty : Bindings := ⟨none, ∅, none, ∅, ∅, ∅⟩

instance : Inhabited Bindings := ⟨empty⟩

def noteSink (b : Bindings) (s : Sink) : Bindings := { b with pendingSink := some s }

def noteDetail (b : Bindings) (detail : String) : Bindings :=
  { b with pendingDetail := some detail }

/-- Marks the node's time as a source; the latest description, which is recorded right before the
origin that it describes, becomes that of its statement. -/
def noteOrigin (b : Bindings) (n : Node) : Bindings :=
  { b with
    sourceTimes := b.sourceTimes.insert n.time
    details := match b.pendingDetail with
      | some detail => b.details.insert n.statement detail
      | none => b.details }

def noteReflective (b : Bindings) (className target : String) : Bindings :=
  { b with reflective := b.reflective.insert className target }

/-- A graph that has no sink takes the latest one: a sink is recorded right before the graphs that
reached it are dumped. -/
def noteDump (b : Bindings) (graph : GraphId) : Bindings :=
  if b.sinks.contains graph then b
  else match b.pendingSink with
    | some s => { b with sinks := b.sinks.insert graph s }
    | none => b

def sink? (b : Bindings) (graph : GraphId) : Option Sink := b.sinks[graph]?

def isSource (b : Bindings) (time : Time) : Bool := b.sourceTimes.contains time

def detail? (b : Bindings) (statement : String) : Option String := b.details[statement]?

def reflectiveTarget? (b : Bindings) (className : String) : Option String :=
  b.reflective[className]?

def boundGraphs (b : Bindings) : Nat := b.sinks.size

def sourceCount (b : Bindings) : Nat := b.sourceTimes.size

end Bindings

end LeakTrace
