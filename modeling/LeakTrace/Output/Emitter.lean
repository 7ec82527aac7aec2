import LeakTrace.Files.Route
import LeakTrace.Output.Csv
import LeakTrace.Output.Rows

namespace LeakTrace

namespace PathRow

def header : List String := ["index", "method", "line", "statement"]

def fields (r : PathRow) : List String :=
  [toString r.index, r.method, String.ofList (Text.ofInt64 r.line), r.statement]

end PathRow

namespace BytecodeRow

def header : List String := ["index", "class", "method", "line", "instruction"]

def fields (r : BytecodeRow) : List String :=
  [toString r.index, r.cls, r.method, String.ofList (Text.ofInt64 r.line), r.instruction]

end BytecodeRow

namespace SummaryRow

def header : List String :=
  ["path", "source_stmt", "source_detail", "sink_stmt", "sink_detail", "src_instance",
    "sink_instance", "length"]

def fields (r : SummaryRow) : List String :=
  [r.path, r.sourceStatement, r.sourceDetail, r.sinkStatement, r.sinkDetail,
    String.ofList (Text.ofInt64 r.sourceTime), String.ofList (Text.ofInt64 r.sinkTime),
    toString r.length]

end SummaryRow

namespace Emitter

def pathsDir : String := "paths"
def bytecodeDir : String := "paths_bytecode"
def graphsDir : String := "graphs"
def summaryFile : String := "sources_sinks.csv"

/-- Empties a directory, or makes it. -/
def renew (dir : Route) : FileAction Unit := do
  if let some p := (← get).find? dir then FileAction.removeDirectory p
  let _ ← FileAction.makeDirectory dir

/-- Prepares the output directory for a new set of paths. Other files stay. -/
def create (root : Route) : FileAction Unit := do
  renew (root.join pathsDir)
  renew (root.join bytecodeDir)

def writeCsv (file : Route) (records : List (List String)) : FileAction Unit :=
  FileAction.write .csv file (Csv.render records)

/-- Writes both files of a path. -/
def writePath (root : Route) (name : String) (rows : List PathRow) (bytecode : List BytecodeRow) :
    FileAction Unit := do
  let file := name ++ ".csv"
  writeCsv ((root.join pathsDir).join file) (PathRow.header :: rows.map PathRow.fields)
  writeCsv ((root.join bytecodeDir).join file)
    (BytecodeRow.header :: bytecode.map BytecodeRow.fields)

def writeSummary (root : Route) (rows : List SummaryRow) : FileAction Unit :=
  writeCsv (root.join summaryFile) (SummaryRow.header :: rows.map SummaryRow.fields)

def writeGraph (root : Route) (name dot : String) : FileAction Unit := do
  let dir := root.join graphsDir
  let _ ← FileAction.makeDirectory dir
  FileAction.write .access (dir.join (name ++ ".dot")) dot

end Emitter

end LeakTrace
