import LeakTrace.Files.Tree

namespace LeakTrace

/-- A step from one tree of files to another. -/
inductive Change
  /-- Remove a file, or a directory with all below it. -/
  | remove (p : Path)
  | makeDirectory (p : Path)
  | write (p : Path) (content : List UInt8)
deriving DecidableEq

namespace FileTree

/-- What stood at a path has to go before the later tree can be made: nothing stands there any more,
or a file and a directory have changed places. -/
def isGone (after : FileTree) (p : Path) (e : Entry) : Bool :=
  match e, after.lookup? p with
  | .directory, some .directory => false
  | .file _, some (.file _) => false
  | _, _ => true

/-- The change that puts an entry in its place. -/
def put (p : Path) : Entry → Change
  | .directory => .makeDirectory p
  | .file content => .write p content

/-- The changes that lead from one tree to another: removals first, then directories and files, each
after the directory that it stands in. What stands below something removed is removed with it. -/
def changes (before after : FileTree) : List Change :=
  let gone := before.entries.toList.filter fun (p, e) => after.isGone p e
  let topmost := gone.filter fun (p, _) => !gone.any fun (q, _) => q.isPrefixOf p && q ≠ p
  let new := after.entries.toList.filter fun (p, e) => before.lookup? p ≠ some e
  topmost.map (fun (p, _) => .remove p) ++ new.map fun (p, e) => put p e

end FileTree

end LeakTrace
