namespace LeakTrace.Csv

/-- The characters that make quotes necessary. -/
def isSpecial (c : Char) : Bool := c = ',' || c = '"' || c = '\r' || c = '\n'

def doubleQuotes (cs : List Char) : List Char := cs.flatMap fun c => if c = '"' then ['"', '"'] else [c]

/-- A field stands between quotes if it holds a comma, a quote or a line break, and a quote inside
it is written twice. -/
def field (s : String) : List Char :=
  if s.toList.any isSpecial then '"' :: doubleQuotes s.toList ++ ['"'] else s.toList

def record (fields : List String) : List Char := [','].intercalate (fields.map field) ++ ['\n']

/-- The text of a file with the given lines. -/
def render (records : List (List String)) : String := String.ofList (records.flatMap record)

end LeakTrace.Csv
