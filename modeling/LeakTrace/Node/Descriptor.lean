import LeakTrace.Node

namespace LeakTrace.Node

/-- The characters of a node's descriptor. -/
def descriptor (n : Node) : List Char :=
  n.statement.toList ++ (if n.isRoot then "(" else "id(").toList ++ Text.ofInt64 n.time ++ [')']

/-- The descriptor of a node. -/
def text (n : Node) : String := String.ofList n.descriptor

instance : ToString Node := ⟨text⟩

/-- The logical time that stands before the first closing parenthesis. -/
def readTime? (cs : List Char) : Option Time := Text.readInt64? (Text.trim (Text.before ')' cs))

/-- Reads a descriptor, `STARTPATH(<time>)` for a root and `<statement>id(<time>)` for any other
node. A statement may itself hold `id(`, so the time stands behind the last one. Surrounding white
space and what follows the time are ignored. -/
def read? (cs : List Char) : Option Node :=
  match Text.cut "STARTPATH(" (Text.trim cs) with
  | some (_, time) => (readTime? time).map fun t => ⟨t, rootStatement⟩
  | none =>
    match Text.cutLast "id(" (Text.trim cs) with
    | some (statement, time) =>
      if statement = [] then none
      else (readTime? time).map fun t => ⟨t, String.ofList statement⟩
    | none => none

end LeakTrace.Node
