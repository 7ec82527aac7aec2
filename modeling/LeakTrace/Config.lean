import LeakTrace.Text.Cut

namespace LeakTrace

/-- Which terminal of a partition stands in for the sink when none matches the recorded one. -/
inductive SinkSelection
  | first
  | last
deriving DecidableEq, Repr

def SinkSelection.name : SinkSelection → String
  | first => "first"
  | last => "last"

def SinkSelection.ofName? : String → Option SinkSelection
  | "first" => some first
  | "last" => some last
  | _ => none

/-- Settings of one extraction. -/
structure Config where
  /-- A statement that begins with one of these belongs to the framework. -/
  frameworkPrefixes : List String := ["Ljava", "Landroid", "Lcom/google", "Lcom/android", "Lkotlin"]
  /-- Link two framework statements of consecutive lines through the earlier line's left node. -/
  repairFrameworkLinks : Bool := true
  sinkSelection : SinkSelection := .first
  /-- Keep the shortest path of each starting statement alone. -/
  onePathPerStart : Bool := true
  /-- Work on graphs side by side; no answer depends on it. -/
  parallel : Bool := true
  /-- Draw every partition. -/
  dumpGraphs : Bool := false
  /-- Leave void returns out of the lowered paths. -/
  skipVoidReturns : Bool := true
deriving DecidableEq, Repr

def Config.isFramework (c : Config) (statement : String) : Bool :=
  c.frameworkPrefixes.any fun start => Text.Begins start statement.toList

end LeakTrace
