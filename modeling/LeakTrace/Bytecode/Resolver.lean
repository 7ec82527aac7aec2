import LeakTrace.Bytecode.Table
import LeakTrace.Files.Route
import LeakTrace.Text.Blank
import LeakTrace.Text.Decimal

namespace LeakTrace

/-- A statement taken apart: `<class>;-><method>(<line>)`. -/
structure StatementRef where
  cls : String
  method : String
  line : Int64
deriving DecidableEq, Repr

namespace StatementRef

def read? (statement : String) : Option StatementRef := do
  let (cls, rest) ← Text.cut ";->" statement.toList
  let (method, line) ← Text.cutLast "(" rest
  let line ← Text.readInt64? (Text.trim (← Text.beforeSuffix ")" line))
  return ⟨String.ofList cls, String.ofList method, line⟩

/-- The name of the class's table. -/
def key (s : StatementRef) : String := String.ofList (Text.exchange '/' '_' s.cls.toList)

end StatementRef

/-- The instruction behind a statement. -/
structure Instruction where
  cls : String
  method : String
  line : Int64
  text : String
deriving DecidableEq, Repr

/-- Resolves statements to instructions. Each class has a table of its own, in a file named for the
class; application tables are looked for before framework tables. A table is read once, and what was
found, or that nothing was, is remembered. -/
structure Resolver where
  appDir : Route
  frameworkDir : Option Route
  /-- The table of each class that was looked for, if it has one. -/
  cached : Std.TreeMap String (Option ClassTable)

def moveResultMark : String := "move-result"

namespace Code

def line? (code : Code) (n : Int64) : Option String := code[String.ofList (Text.ofInt64 n)]?

/-- An instruction of the code. A call and the instruction that receives its result belong together:
either of the two stands for both, the receiving one first. -/
def joined (code : Code) (n : Int64) (text : String) : String :=
  if Text.Has moveResultMark text.toList then
    match line? code (n - 1) with
    | some previous => text ++ "=" ++ previous
    | none => text
  else
    match line? code (n + 1) with
    | some next => if Text.Has moveResultMark next.toList then next ++ "=" ++ text else text
    | none => text

end Code

namespace ClassTable

/-- The instruction of a method at a line. -/
def instruction? (table : ClassTable) (s : StatementRef) : Option Instruction := do
  let code ← table[s.method]?
  let text ← Code.line? code s.line
  return ⟨s.cls ++ ";", s.method, s.line, Code.joined code s.line text⟩

end ClassTable

namespace Resolver

def ofDirs (appDir : Route) (frameworkDir : Option Route) : Resolver := ⟨appDir, frameworkDir, ∅⟩

def size (r : Resolver) : Nat := r.cached.size

def readTable (files : FileTree) (file : Route) : Except Failure ClassTable :=
  match files.content? file with
  | none => .error .access
  | some content =>
    match ClassTable.read? content with
    | some table => .ok table
    | none => .error .table

/-- Reads the table of a class from the first directory that has it. -/
def load (files : FileTree) (r : Resolver) (key : String) : Except Failure (Option ClassTable) :=
  let tables := (r.appDir :: r.frameworkDir.toList).map fun dir => dir.join (key ++ ".json")
  match tables.find? fun file => (files.content? file).isSome with
  | some file => (readTable files file).map some
  | none => .ok none

/-- The table of a class. A failure is not remembered. -/
def table (files : FileTree) (r : Resolver) (key : String) :
    Except Failure (Option ClassTable) × Resolver :=
  match r.cached[key]? with
  | some entry => (.ok entry, r)
  | none =>
    match r.load files key with
    | .ok entry => (.ok entry, { r with cached := r.cached.insert key entry })
    | .error failure => (.error failure, r)

/-- The instruction behind a statement. -/
def resolve (files : FileTree) (r : Resolver) (statement : String) :
    Except Failure (Option Instruction) × Resolver :=
  match StatementRef.read? statement with
  | none => (.ok none, r)
  | some s =>
    let (entry, r) := r.table files s.key
    (entry.map fun table => table.bind fun t => t.instruction? s, r)

/-- The class that a file in a directory of tables stands for. -/
def tableKey? (name : String) : Option String :=
  match Text.cutLast "." name.toList with
  | some (stem, extension) =>
    if stem ≠ [] ∧ extension = "json".toList then some (String.ofList stem) else none
  | none => none

/-- Reads the named files of a directory, except those of classes that were looked for already, and
counts them. What was read before a failure is remembered. -/
def preloadNames (files : FileTree) (dir : Route) :
    Nat → Resolver → List String → Except Failure Nat × Resolver
  | count, r, [] => (.ok count, r)
  | count, r, name :: names =>
    match tableKey? name with
    | none => preloadNames files dir count r names
    | some key =>
      if r.cached.contains key then preloadNames files dir count r names
      else
        match readTable files (dir.join name) with
        | .error failure => (.error failure, r)
        | .ok t =>
          preloadNames files dir (count + 1) { r with cached := r.cached.insert key (some t) } names

/-- Reads all tables of a directory, in the order in which it is listed. -/
def preloadBy (listing : FileTree.Listing) (files : FileTree) (r : Resolver) (dir : Route) :
    Except Failure Nat × Resolver :=
  match files.find? dir with
  | some p =>
    if files.lookup? p = some .directory then
      preloadNames files dir 0 r (listing.order (files.names p))
    else (.error .access, r)
  | none => (.error .access, r)

/-- Reads all tables of a directory. -/
def preload : FileTree → Resolver → Route → Except Failure Nat × Resolver := preloadBy .ascending

end Resolver

end LeakTrace
