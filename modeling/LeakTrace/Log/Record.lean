import LeakTrace.Fragment
import LeakTrace.Log.Sink

namespace LeakTrace

/-- One typed record of a taint log. -/
inductive Record
  /-- Describes the source that the next origin comes from. -/
  | sourceDetail (statement detail : String)
  /-- Announces a node as a true source. -/
  | origin (node : Node)
  /-- Names the source that a class, given by its dotted name, invoked by reflection. -/
  | reflective (className target : String)
  | sink (sink : Sink)
  /-- One fragment of a dumped graph. -/
  | dump (graph : GraphId) (fragment : Fragment)
  /-- Names a graph that was dumped beyond a parcel or file boundary. -/
  | boundary (graph : GraphId)
deriving DecidableEq, Repr

/-- Why a line that carries a mark cannot be read. -/
inductive LineFault
  | boundaryGraph
  | dumpWithoutNode
  | dumpGraph
  | dumpWithoutLeft
  | nodeDescriptor
  | leftDescriptor
  | rightDescriptor
  | sinkWithoutDetail
  | reflectiveWithoutTarget
  | originTime
  | sourceWithoutDetail
deriving DecidableEq, Repr

def LineFault.message : LineFault → String
  | boundaryGraph => "unparsable parcel graph id"
  | dumpWithoutNode => "dump record without node delimiter"
  | dumpGraph => "unparsable dump graph id"
  | dumpWithoutLeft => "dump record without left successor"
  | nodeDescriptor => "unparsable node descriptor"
  | leftDescriptor => "unparsable left descriptor"
  | rightDescriptor => "unparsable right descriptor"
  | sinkWithoutDetail => "sink record without detail"
  | reflectiveWithoutTarget => "reflective source without target"
  | originTime => "unparsable source instance id"
  | sourceWithoutDetail => "source record without detail"

end LeakTrace
