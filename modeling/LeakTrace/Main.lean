import LeakTrace.CommandLine.Outcome
import LeakTrace.Files.Changes

namespace LeakTrace.Main

/-- The path as the operating system takes it. -/
def absolute (p : Path) : String := "/" ++ "/".intercalate p

/-- Reads what stands at a path. A directory is read without what is in it. -/
def readEntry (t : FileTree) (p : Path) : IO FileTree := do
  let file := System.mkFilePath [absolute p]
  if p = [] then return t
  else if ← file.isDir then return t.place p .directory
  else if ← file.pathExists then return t.place p (.file (← IO.FS.readBinFile file).data.toList)
  else return t

/-- Reads what stands along a route, and in a directory at its end what is in it. -/
def readAlong (t : FileTree) (r : Route) : IO FileTree := do
  let mut t := t
  let trail := Route.trail r.origin r.names
  for p in trail do
    t ← readEntry t p
  if let some p := trail.getLast? then
    let file := System.mkFilePath [absolute p]
    if ← file.isDir then
      for child in ← file.readDir do
        t ← readEntry t (p ++ [child.fileName])
  return t

def carryOut : Change → IO Unit
  | .remove p => do
    let file := System.mkFilePath [absolute p]
    if ← file.isDir then IO.FS.removeDirAll file else IO.FS.removeFile file
  | .makeDirectory p => IO.FS.createDirAll (absolute p)
  | .write p content => IO.FS.writeBinFile (absolute p) ⟨content.toArray⟩

end LeakTrace.Main

open LeakTrace in
def main (args : List String) : IO UInt32 := do
  let here : Route := { start := [], text := (← IO.currentDir).toString }
  let base := here.names.foldl Path.step []
  let mut files := FileTree.empty
  for r in CommandLine.inputs args base do
    files ← Main.readAlong files r
  let outcome := CommandLine.run args base files
  for change in files.changes outcome.files do
    Main.carryOut change
  IO.print outcome.stdout
  IO.eprint outcome.stderr
  return outcome.exit
