import LeakTrace.Log.Record

namespace LeakTrace

/-- What a line turns out to be. -/
inductive LineContent
  | ignored
  | faulty (fault : LineFault)
  | record (record : Record)
deriving DecidableEq, Repr

/-- A line's content together with the statements that were read from it, in order. A line that is
found faulty late has statements too. -/
structure Reading where
  content : LineContent
  statements : List String
deriving DecidableEq, Repr

namespace Reading

def tag : String := "System.out: "
def parcelMark : String := "DumpTaint for parcel: "
def fileMark : String := "DumpTaint for file: "
def dumpMark : String := "DumpTaint-"
def sinkMark : String := "SinkFound: "
def sourceMark : String := "SourceFound: "
def reflectiveMark : String := "injectTaintSeedIfReflectiveSource"

def fault (f : LineFault) (statements : List String) : Reading := ⟨.faulty f, statements⟩

/-- The text after the tag, without trailing white space. -/
def payload (line : List Char) : List Char :=
  Text.trimEnd (((Text.cut tag line).map Prod.snd).getD line)

def ofBoundary (id : List Char) : Reading :=
  match Text.readUInt64? (Text.trim id) with
  | some graph => ⟨.record (.boundary graph), []⟩
  | none => fault .boundaryGraph []

/-- The left descriptor, and the right one if there is one. -/
def cutPredecessors (cs : List Char) : List Char × Option (List Char) :=
  match Text.cut "->right->" cs with
  | some (left, right) => (left, some right)
  | none => (cs, none)

def ofDescriptors (graph : GraphId) (node left : List Char) (right : Option (List Char)) :
    Reading :=
  match Node.read? node with
  | none => fault .nodeDescriptor []
  | some node =>
    match Node.read? left with
    | none => fault .leftDescriptor [node.statement]
    | some left =>
      match right with
      | none => ⟨.record (.dump graph ⟨node, left, none⟩), [node.statement, left.statement]⟩
      | some right =>
        match Node.read? right with
        | none => fault .rightDescriptor [node.statement, left.statement]
        | some right =>
          ⟨.record (.dump graph ⟨node, left, some right⟩),
            [node.statement, left.statement, right.statement]⟩

def ofDump (tail : List Char) : Reading :=
  match Text.cut ": ->" tail with
  | none => fault .dumpWithoutNode []
  | some (id, record) =>
    match Text.readUInt64? id with
    | none => fault .dumpGraph []
    | some graph =>
      match Text.cut "->left->" record with
      | none => fault .dumpWithoutLeft []
      | some (node, predecessors) =>
        let (left, right) := cutPredecessors predecessors
        ofDescriptors graph node left right

def ofSink (body : List Char) : Reading :=
  match Text.cut ", " body with
  | some (statement, detail) =>
    let statement := String.ofList (Text.trim statement)
    ⟨.record (.sink ⟨statement, String.ofList (Text.trim detail)⟩), [statement]⟩
  | none => fault .sinkWithoutDetail []

/-- Dotted form of a class name: `Lcom/app/Main;` and `com/app/Main` both become `com.app.Main`. -/
def dottedClass (cls : List Char) : List Char :=
  let name := ((Text.afterPrefix "L" cls).bind (Text.beforeSuffix ";")).getD cls
  Text.exchange '/' '.' name

/-- The class is the last word before the first arrow, the target the last word of the line. -/
def ofReflective (payload : List Char) : Reading :=
  let head := ((Text.cut "->" payload).map Prod.fst).getD payload
  match (Text.words head).getLast?, (Text.words payload).getLast? with
  | some cls, some target =>
    if cls = target then fault .reflectiveWithoutTarget []
    else ⟨.record (.reflective (String.ofList (dottedClass cls)) (String.ofList target)), []⟩
  | _, _ => fault .reflectiveWithoutTarget []

/-- An origin closes its statement and then names its time; any other source describes one. -/
def ofSource (body : List Char) : Reading :=
  let body := Text.trim body
  match Text.cutLast ")id(" body with
  | some (statement, time) =>
    match Node.readTime? time with
    | none => fault .originTime []
    | some t =>
      let statement := String.ofList (statement ++ [')'])
      ⟨.record (.origin ⟨t, statement⟩), [statement]⟩
  | none =>
    match Text.cut ", " body with
    | some (statement, detail) =>
      let statement := String.ofList (Text.trim statement)
      ⟨.record (.sourceDetail statement (String.ofList (Text.trim detail))), [statement]⟩
    | none => fault .sourceWithoutDetail []

def ofPayload (payload : List Char) : Reading :=
  match Text.cut parcelMark payload with
  | some (_, id) => ofBoundary id
  | none =>
  match Text.cut fileMark payload with
  | some (_, id) => ofBoundary id
  | none =>
  match Text.cut dumpMark payload with
  | some (_, tail) => ofDump tail
  | none =>
  match Text.cut sinkMark payload with
  | some (_, body) => ofSink body
  | none =>
  match Text.cut sourceMark payload with
  | some (_, body) =>
    if Text.Has reflectiveMark payload then ofReflective payload else ofSource body
  | none => ⟨.ignored, []⟩

/-- Reads one line of a log. Behind the tag, if there is one, it has one of these forms, tried from the
first to the last; the mark may stand anywhere behind the tag.

    DumpTaint for parcel: <graph>
    DumpTaint for file: <graph>
    DumpTaint-<graph>: -><node>->left-><node>[->right-><node>]
    SinkFound: <statement>, <signature>
    SourceFound: <class>->injectTaintSeedIfReflectiveSource(<line>), <signature>
    SourceFound: <statement>id(<time>)
    SourceFound: <statement>, <signature>
-/
def ofLine (line : String) : Reading := ofPayload (payload line.toList)

end Reading

end LeakTrace
