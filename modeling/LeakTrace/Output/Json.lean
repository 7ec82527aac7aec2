import LeakTrace.Text.Decimal

namespace LeakTrace

inductive Json
  | number (n : Nat)
  | string (s : String)
  | list (items : List Json)
  | object (members : List (String × Json))

namespace Json

def hexDigit (n : Nat) : Char := Nat.digitChar n

/-- The written form of one character of a string. Control characters are escaped. -/
def escapeChar : Char → List Char
  | '"' => ['\\', '"']
  | '\\' => ['\\', '\\']
  | '\n' => ['\\', 'n']
  | '\r' => ['\\', 'r']
  | '\t' => ['\\', 't']
  | '\x08' => ['\\', 'b']
  | '\x0c' => ['\\', 'f']
  | c =>
    if c.toNat < 0x20 then
      ['\\', 'u', '0', '0', hexDigit (c.toNat / 16), hexDigit (c.toNat % 16)]
    else [c]

def quoted (s : String) : List Char := '"' :: s.toList.flatMap escapeChar ++ ['"']

/-- A line break and the indent of a level. -/
def newLine (level : Nat) : List Char := '\n' :: List.replicate (2 * level) ' '

/-- Puts items between two marks, each on a line of its own. -/
def block (level : Nat) (left right : Char) (items : List (List Char)) : List Char :=
  if items = [] then [left, right]
  else left :: [','].intercalate (items.map (newLine (level + 1) ++ ·)) ++ newLine level ++ [right]

mutual

/-- The text of a document on a level: an item a line, two blanks deeper on each level. -/
def pretty (level : Nat) : Json → List Char
  | number n => Text.digits n
  | string s => quoted s
  | list items => block level '[' ']' (prettyItems (level + 1) items)
  | object members => block level '\x7b' '\x7d' (prettyMembers (level + 1) members)

def prettyItems (level : Nat) : List Json → List (List Char)
  | [] => []
  | item :: items => pretty level item :: prettyItems level items

def prettyMembers (level : Nat) : List (String × Json) → List (List Char)
  | [] => []
  | (key, value) :: members =>
    (quoted key ++ ": ".toList ++ pretty level value) :: prettyMembers level members

end

def render (j : Json) : String := String.ofList (pretty 0 j)

end Json

end LeakTrace
