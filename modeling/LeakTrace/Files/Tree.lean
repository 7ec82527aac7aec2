import LeakTrace.Text.Cut
import LeakTrace.Text.Utf8
import Std.Data.TreeMap

namespace LeakTrace

/-- The names from the root to a file or directory. -/
abbrev Path := List String

/-- Why an action on files failed. -/
inductive Failure
  /-- A file or directory cannot be read, written, made or removed. -/
  | access
  /-- A log is a directory. -/
  | mapping
  /-- The text of an instruction table is malformed. -/
  | table
  /-- A file of comma separated values cannot be written. -/
  | csv
deriving DecidableEq, Repr

inductive Entry
  | directory
  | file (content : List UInt8)
deriving DecidableEq

/-- Files and directories by their paths; the root is a directory. -/
structure FileTree where
  /-- What stands at each path, except at the root. -/
  entries : Std.TreeMap Path Entry

namespace Path

/-- Goes from a path by one name: nothing and a single dot stay, two dots go up. -/
def step (p : Path) (name : String) : Path :=
  if name = "" ∨ name = "." then p else if name = ".." then p.dropLast else p ++ [name]

/-- A name that a file or directory can have: one that leads down, no longer than 255 bytes, and
without a zero byte. -/
def isName (name : String) : Bool :=
  name ≠ "" && name ≠ "." && name ≠ ".." && name.utf8ByteSize ≤ 255 && !name.toList.contains '\x00'

theorem step_of_isName {name : String} (h : isName name = true) (p : Path) :
    step p name = p ++ [name] := by
  simp only [isName, Bool.and_eq_true, decide_eq_true_eq] at h
  obtain ⟨⟨⟨⟨hne, hdot⟩, hdots⟩, _⟩, _⟩ := h
  simp [step, hne, hdot, hdots]

end Path

namespace FileTree

def empty : FileTree := ⟨∅⟩

instance : Inhabited FileTree := ⟨empty⟩

def lookup? (t : FileTree) (p : Path) : Option Entry :=
  if p = [] then some .directory else t.entries[p]?

/-- All that stands below a directory, each with its path from there, in ascending order. -/
def below (t : FileTree) (dir : Path) : List (Path × Entry) :=
  t.entries.toList.filterMap fun (p, e) =>
    match Text.dropStart? dir p with
    | some (name :: rest) => some (name :: rest, e)
    | _ => none

/-- The names in a directory. -/
def names (t : FileTree) (dir : Path) : List String :=
  (t.below dir).filterMap fun (p, _) =>
    match p with
    | [name] => some name
    | _ => none

/-- An order in which the names in a directory are listed. -/
structure Listing where
  order : List String → List String
  perm (names : List String) : (order names).Perm names

/-- The order in which `names` gives them. -/
def Listing.ascending : Listing := ⟨id, fun _ => .rfl⟩

/-- Puts a file or directory in its place, whatever stands there, and directories above it. -/
def place (t : FileTree) (p : Path) (e : Entry) : FileTree :=
  let above := ((List.range p.length).map p.take).filter (· ≠ [])
  ⟨(above.foldl (fun m d => m.insert d .directory) t.entries).insert p e⟩

end FileTree

end LeakTrace
