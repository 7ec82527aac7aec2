import LeakTrace.Text.Decimal

namespace LeakTrace.Dot

/-- Puts `text` in the place of each `c`. -/
def replace (c : Char) (text cs : List Char) : List Char :=
  cs.flatMap fun d => if d = c then text else [d]

/-- What is replaced in a label, in this order: the backslashes come first, so those that later
replacements add stay single. -/
def escapes : List (Char × List Char) :=
  [('\\', ['\\', '\\']), ('"', ['\\', '"']), ('\n', ['\\', 'n']), ('\r', []),
    ('<', ['\\', '<']), ('>', ['\\', '>'])]

def escapeChars (cs : List Char) : List Char :=
  escapes.foldl (fun cs (c, text) => replace c text cs) cs

def escape (s : String) : String := String.ofList (escapeChars s.toList)

def nodeName (id : Nat) : String := "n" ++ String.ofList (Text.digits id)

def header (title : String) : String :=
  "digraph \"" ++ escape title ++ "\" \x7b\n    node [shape=box, fontname=\"monospace\"];\n"

def nodeLine (id : Nat) (label : String) : String :=
  "    " ++ nodeName id ++ " [label=\"" ++ escape label ++ "\"];\n"

def edgeLine (source target : Nat) : String :=
  "    " ++ nodeName source ++ " -> " ++ nodeName target ++ ";\n"

def footer : String := "\x7d\n"

/-- A statement in the body of a graph. -/
inductive Item
  | node (id : Nat) (label : String)
  | edge (source target : Nat)
deriving DecidableEq, Repr

def Item.text : Item → String
  | node id label => nodeLine id label
  | edge source target => edgeLine source target

def render (title : String) (items : List Item) : String :=
  header title ++ String.join (items.map Item.text) ++ footer

private theorem replace_append (c : Char) (text cs ds : List Char) :
    replace c text (cs ++ ds) = replace c text cs ++ replace c text ds := by
  simp [replace]

theorem escapeChars_append (cs ds : List Char) :
    escapeChars (cs ++ ds) = escapeChars cs ++ escapeChars ds := by
  simp [escapeChars, escapes, replace_append]

end LeakTrace.Dot
