import LeakTrace.Extraction.Report
import LeakTrace.Log.Lines
import LeakTrace.Output.Emitter

namespace LeakTrace

/-- The bytes of a log. -/
def FileTree.readLog (files : FileTree) (log : Route) : Except Failure (List UInt8) :=
  match files.entry? log with
  | some (.file content) => .ok content
  | some .directory => .error .mapping
  | none => .error .access

/-- The files, and what the resolver remembers. -/
structure Workspace where
  files : FileTree
  resolver : Resolver

/-- An action on a workspace. What was done before a failure stays done. -/
abbrev Job (α : Type) := ExceptT Failure (StateM Workspace) α

namespace Job

def onFiles {α : Type} (action : FileAction α) : Job α := ExceptT.mk fun w =>
  let (result, files) := action.run.run w.files
  (result, { w with files := files })

def onResolver {α : Type} (action : FileTree → Resolver → Except Failure α × Resolver) : Job α :=
  ExceptT.mk fun w =>
    let (result, resolver) := action w.files w.resolver
    (result, { w with resolver := resolver })

def resolve (statement : String) : Job (Option Instruction) :=
  onResolver fun files r => r.resolve files statement

/-- The instruction behind each step of a path; a step without one gives none. -/
def resolvePath (p : LeakPath) : Job (List (Option Instruction)) := p.statements.mapM resolve

def readLog (log : Route) : Job (List UInt8) := do
  ExceptT.mk (pure ((← get).files.readLog log))

/-- Writes one path and counts its instructions in the report. -/
def writePath (config : Config) (bindings : Bindings) (out : Route) (report : Report) (rank : Nat)
    (p : LeakPath) (instructions : List (Option Instruction)) : Job Report := do
  let lowered :=
    LoweredPath.ofInstructions bindings config.skipVoidReturns (instructions.filterMap id)
  onFiles (Emitter.writePath out (p.name rank) lowered.rows lowered.bytecode)
  return { report with
    droppedStatements := report.droppedStatements + instructions.countP Option.isNone
    unsupportedInstructions := report.unsupportedInstructions + lowered.unsupported }

/-- Writes ranked paths, from the given rank on. -/
def writePaths (config : Config) (bindings : Bindings) (out : Route) (report : Report) :
    Nat → List (LeakPath × List (Option Instruction)) → Job Report
  | _, [] => pure report
  | rank, (p, instructions) :: rest => do
    let report ← writePath config bindings out report rank p instructions
    writePaths config bindings out report (rank + 1) rest

/-- The summary of ranked paths, from the given rank on. -/
def summaryRows (bindings : Bindings) : Nat → List LeakPath → List SummaryRow
  | _, [] => []
  | rank, p :: ps => p.summaryRow rank bindings :: summaryRows bindings (rank + 1) ps

/-- Extracts the paths of a log and writes them below the output directory. -/
def extract (config : Config) (log : TaintLog) (out : Route) : Job Report := do
  let r := log.reconstruct
  let paths := config.paths r
  onFiles (Emitter.create out)
  for (name, dot) in config.drawings r do
    onFiles (Emitter.writeGraph out name dot)
  let resolved ← paths.mapM resolvePath
  let report ←
    writePaths config r.bindings out (Report.ofReconstruction config r) 1 (paths.zip resolved)
  onFiles (Emitter.writeSummary out (summaryRows r.bindings 1 paths))
  return report

/-- Extracts the paths of the log in a file. -/
def extractFile (config : Config) (log out : Route) : Job Report := do
  let content ← readLog log
  extract config (TaintLog.ofLines (Log.splitLines content)) out

end Job

end LeakTrace
