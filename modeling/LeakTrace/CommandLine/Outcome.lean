import LeakTrace.CommandLine.Command
import LeakTrace.Extraction.Run
import LeakTrace.Output.Columns
import LeakTrace.Output.Json

namespace LeakTrace.CommandLine

/-- What a run of the program leaves behind. -/
structure Outcome where
  exit : UInt32
  stdout : String
  stderr : String
  files : FileTree

namespace Outcome

def errorMark : String := "Error: "

def success (files : FileTree) (stdout : String) : Outcome := ⟨0, stdout, "", files⟩

def failure (files : FileTree) (message : String) : Outcome :=
  ⟨1, "", errorMark ++ message ++ "\n", files⟩

/-- The first reported error: the rest of the first line that begins with the mark, without the
carriage return that may end it. -/
def errorLine? (o : Outcome) : Option String :=
  ((o.stderr.toList.splitOn '\n').findSome? fun line =>
    Text.afterPrefix errorMark ((Text.beforeSuffix "\r" line).getD line)).map String.ofList

end Outcome

def jsonText (j : Json) : String := j.render ++ "\n"

/-- A label and a number in the seventeenth column. -/
def labelled (label : String) (value : String) : String :=
  label ++ String.ofList (List.replicate (17 - label.length) ' ') ++ value ++ "\n"

def labelledNat (label : String) (n : Nat) : String := labelled label (toString n)

/-- The counters that are printed as a table. -/
def stages (r : Report) : List (String × Nat) :=
  [("lines", r.lines), ("malformed lines", r.malformedLines), ("graphs", r.graphs),
    ("bound graphs", r.boundGraphs), ("parcels inlined", r.parcelsInlined),
    ("parcels unresolved", r.parcelsUnresolved), ("dropped edges", r.droppedEdges),
    ("partitions", r.partitions), ("candidate paths", r.candidatePaths),
    ("causal violations", r.causalViolations), ("unreachable sinks", r.unreachable),
    ("divergent paths", r.divergentPaths), ("unresolved statements", r.droppedStatements),
    ("unsupported instructions", r.unsupportedInstructions)]

def reportText (out : String) (r : Report) : String :=
  labelled "Output:" out ++ labelledNat "Paths:" r.paths ++ "\n" ++
    Columns.render "  " [("Stage", .left), ("Count", .right)]
      ((stages r).map fun (stage, count) => [stage, toString count])

def reportJson (r : Report) : Json := .object (r.fields.map fun (name, n) => (name, .number n))

namespace ExtractOptions

def config (o : ExtractOptions) (selection : SinkSelection) : Config :=
  { sinkSelection := selection
    onePathPerStart := !o.keepAlternateRoutes
    parallel := !o.sequential
    dumpGraphs := o.dumpGraphs }

/-- Loads the tables of one directory after another, up to the first that fails, which is named. -/
def preloadAll (base : Path) (files : FileTree) : Resolver → List String → Except String Resolver
  | r, [] => .ok r
  | r, dir :: dirs =>
    match r.preload files { start := base, text := dir } with
    | (.ok _, r) => preloadAll base files r dirs
    | (.error _, _) => .error ("failed to preload tables: " ++ dir)

def run (o : ExtractOptions) (json : Bool) (base : Path) (files : FileTree) : Outcome :=
  match SinkSelection.ofName? o.sink with
  | none =>
    .failure files ("unknown sink selection '" ++ o.sink ++ "' (expected first or last)")
  | some selection =>
    let route (text : String) : Route := { start := base, text := text }
    let r := Resolver.ofDirs (route o.classes) (o.frameworkClasses.map route)
    match preloadAll base files r o.preload with
    | .error message => .failure files message
    | .ok r =>
      let job := Job.extractFile (o.config selection) (route o.log) (route o.out)
      match job.run.run ⟨files, r⟩ with
      | (.ok report, w) =>
        .success w.files (if json then jsonText (reportJson report) else reportText o.out report)
      | (.error _, w) => .failure w.files ("extraction failed: " ++ o.log)

end ExtractOptions

/-- A dumped graph in one line. -/
structure GraphInfo where
  graph : GraphId
  lines : Nat
  sink : Option Sink
deriving DecidableEq, Repr

/-- The dumped graphs of a log, or those that have a sink. -/
def graphInfos (log : TaintLog) (boundOnly : Bool) : List GraphInfo :=
  (log.graphs.entries.map fun p => ⟨p.1, p.2.length, log.bindings.sink? p.1⟩).filter fun info =>
    !boundOnly || info.sink.isSome

def idText (graph : GraphId) : String := String.ofList (Text.ofUInt64 graph)

def inspectionText (log : TaintLog) (graphs : List GraphInfo) : String :=
  labelledNat "Lines:" log.counts.lines ++ labelledNat "Events:" log.counts.events ++
    labelledNat "Malformed:" log.counts.malformed ++
    labelledNat "Dump lines:" log.counts.dumpLines ++
    labelledNat "Sources:" log.bindings.sourceCount ++
    labelledNat "Cached nodes:" log.cache.size ++
    labelledNat "Statements:" log.statements.size ++
    (if log.boundaries = [] then ""
      else labelled "Parcel graphs:" (", ".intercalate (log.boundaries.map idText))) ++
    (if graphs = [] then ""
      else "\nGraphs:\n" ++
        Columns.render "  " [("Id", .right), ("Lines", .right), ("Sink", .left)]
          (graphs.map fun g =>
            [idText g.graph, toString g.lines, (g.sink.map Sink.statement).getD "-"]))

def GraphInfo.json (g : GraphInfo) : Json :=
  .object <| [("id", .number g.graph.toNat), ("lines", .number g.lines)] ++
    match g.sink with
    | some s => [("sink", .string s.statement), ("sink_detail", .string s.detail)]
    | none => []

def inspectionJson (log : TaintLog) (graphs : List GraphInfo) : Json :=
  .object <|
    [("stats", .object
        [("lines", .number log.counts.lines), ("events", .number log.counts.events),
          ("malformed", .number log.counts.malformed),
          ("dump_lines", .number log.counts.dumpLines)]),
      ("sources", .number log.bindings.sourceCount), ("cached_nodes", .number log.cache.size),
      ("distinct_statements", .number log.statements.size)] ++
    (if log.boundaries = [] then []
      else [("parcels", .list (log.boundaries.map fun g => .number g.toNat))]) ++
    [("graphs", .list (graphs.map GraphInfo.json))]

def inspect (path : String) (boundOnly json : Bool) (base : Path) (files : FileTree) : Outcome :=
  match files.readLog { start := base, text := path } with
  | .error _ => .failure files ("failed to read log: " ++ path)
  | .ok content =>
    let log := TaintLog.ofLines (Log.splitLines content)
    let graphs := graphInfos log boundOnly
    .success files <|
      if json then jsonText (inspectionJson log graphs) else inspectionText log graphs

def translationText (instructions : List String) : String :=
  Columns.render "" [("Instruction", .left), ("Three-address", .left)]
    (instructions.map fun i => [i, (ThreeAddress.translate i.toList).text])

def translationJson (instructions : List String) : Json :=
  .list <| instructions.map fun i =>
    .object [("instruction", .string i),
      match ThreeAddress.translate i.toList with
      | .statement text => ("statement", .string text)
      | .unsupported mnemonic => ("unsupported", .string mnemonic)]

def versionText : String := "taintpath 0.1.0\n"

def usageText : String :=
  "Usage: taintpath [--json] [-v] <extract|inspect|translate> ...\n" ++
    "  extract LOG --classes DIR [--framework-classes DIR] [--preload DIR]... -o DIR\n" ++
    "          [--sink first|last] [--keep-alternate-routes] [--dump-graphs] [--sequential]\n" ++
    "  inspect LOG [--bound-only]\n" ++
    "  translate INSN...\n"

def Invocation.run (i : Invocation) (base : Path) (files : FileTree) : Outcome :=
  match i.command with
  | .extract options => options.run i.json base files
  | .inspect log boundOnly => inspect log boundOnly i.json base files
  | .translate instructions =>
    .success files <|
      if i.json then jsonText (translationJson instructions) else translationText instructions

/-- Runs the program on its arguments; relative paths are read from `base`. -/
def run (args : List String) (base : Path) (files : FileTree) : Outcome :=
  match readInvocation args with
  | .ok i => i.run base files
  | .error .help => .success files usageText
  | .error .version => .success files versionText
  | .error (.usage fault) => ⟨2, "", "error: " ++ fault.message ++ "\n\n" ++ usageText, files⟩

/-- The routes that a command follows. -/
def Command.inputs (base : Path) : Command → List Route
  | .extract o =>
    let route (text : String) : Route := { start := base, text := text }
    let out := route o.out
    (o.log :: o.classes :: o.frameworkClasses.toList ++ o.preload).map route ++
      [out, out.join Emitter.pathsDir, out.join Emitter.bytecodeDir, out.join Emitter.graphsDir,
        out.join Emitter.summaryFile]
  | .inspect log _ => [{ start := base, text := log }]
  | .translate _ => []

/-- The routes that the program follows. -/
def inputs (args : List String) (base : Path) : List Route :=
  match readInvocation args with
  | .ok i => i.command.inputs base
  | .error _ => []

end LeakTrace.CommandLine
