import LeakTrace.Files.Tree

namespace LeakTrace

/-- A path as it is written. It is followed name by name, so it may lead nowhere although the path
that it spells exists: two dots behind a file, or behind a directory that is missing, lead nowhere.
-/
structure Route where
  /-- The directory that the text is read from, unless the text begins with a slash. -/
  start : Path
  /-- Names between slashes. -/
  text : String
  /-- The most bytes that the text may have. -/
  room : Nat := 4095
deriving DecidableEq, Repr

namespace Route

/-- The text can be followed at all. -/
def isReadable (r : Route) : Bool :=
  r.text ≠ "" && r.text.utf8ByteSize ≤ r.room && !r.text.toList.contains '\x00'

/-- Where following begins. -/
def origin (r : Route) : Path := if Text.Begins "/" r.text.toList then [] else r.start

/-- The names to follow. Slashes at the ends and double slashes give empty ones. -/
def names (r : Route) : List String := (r.text.toList.splitOn '/').map String.ofList

/-- The text goes on after the route. One that begins with a slash replaces it. -/
def join (r : Route) (text : String) : Route :=
  if Text.Begins "/" text.toList then { r with text := text }
  else if r.text = "" ∨ r.text.toList.getLast? = some '/' then { r with text := r.text ++ text }
  else { r with text := r.text ++ "/" ++ text }

/-- The paths that the names pass, whatever stands there. -/
def trail (p : Path) : List String → List Path
  | [] => [p]
  | name :: names => p :: trail (p.step name) names

end Route

namespace FileTree

/-- Follows names from a path. Only a directory leads on, and what is followed has to exist. -/
def follow? (t : FileTree) (p : Path) : List String → Option Path
  | [] => some p
  | name :: names =>
    if t.lookup? p = some .directory ∧ (t.lookup? (p.step name)).isSome then
      t.follow? (p.step name) names
    else none

/-- The path that a route leads to. -/
def find? (t : FileTree) (r : Route) : Option Path :=
  if r.isReadable then t.follow? r.origin r.names else none

/-- What stands at the end of a route. -/
def entry? (t : FileTree) (r : Route) : Option Entry := (t.find? r).bind t.lookup?

/-- The content of the file at the end of a route. -/
def content? (t : FileTree) (r : Route) : Option (List UInt8) :=
  match t.entry? r with
  | some (.file content) => some content
  | _ => none

/-- The path of a file that is written at the end of a route: all names but the last lead to a
directory, and the last one is a name for a file. -/
def target? (t : FileTree) (r : Route) : Option Path :=
  match r.names.getLast?, t.follow? r.origin r.names.dropLast with
  | some name, some dir =>
    if r.isReadable ∧ t.lookup? dir = some .directory ∧ Path.isName name then some (dir ++ [name])
    else none
  | _, _ => none

theorem follow?_append (t : FileTree) (p : Path) (xs ys : List String) :
    t.follow? p (xs ++ ys) = (t.follow? p xs).bind fun q => t.follow? q ys := by
  induction xs generalizing p with
  | nil => rfl
  | cons x xs ih =>
    simp only [List.cons_append, follow?]
    split <;> simp [ih]

end FileTree

/-- An action on files. What was done before a failure stays done. -/
abbrev FileAction (α : Type) := ExceptT Failure (StateM FileTree) α

namespace FileAction

/-- Makes the directories that the names pass from a directory on, and gives the last one. -/
def makeBelow (p : Path) : List String → FileAction Path
  | [] => pure p
  | name :: names => do
    let t ← get
    match t.lookup? (p.step name) with
    | some .directory => pure ()
    | some (.file _) => throw .access
    | none =>
      if Path.isName name then set (FileTree.mk (t.entries.insert (p.step name) .directory))
      else throw .access
    makeBelow (p.step name) names

/-- Makes a directory and those on the way to it, and gives its path. -/
def makeDirectory (r : Route) : FileAction Path :=
  if r.isReadable then makeBelow r.origin r.names else throw .access

/-- Removes a directory and all below it. -/
def removeDirectory (p : Path) : FileAction Unit := do
  let t ← get
  match t.lookup? p with
  | some .directory => set (FileTree.mk (t.entries.filter fun q _ => !p.isPrefixOf q))
  | _ => throw .access

/-- Writes a file into a directory that exists. -/
def write (failure : Failure) (r : Route) (content : String) : FileAction Unit := do
  let t ← get
  match t.target? r with
  | none => throw failure
  | some p =>
    match t.lookup? p with
    | some .directory => throw failure
    | _ => set (FileTree.mk (t.entries.insert p (.file (Text.Utf8.encode content))))

end FileAction

end LeakTrace
