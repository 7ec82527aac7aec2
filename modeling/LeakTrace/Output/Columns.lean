import LeakTrace.Output.Wrap
import LeakTrace.Text.Blank

namespace LeakTrace.Columns

inductive Align
  | left
  | right
deriving DecidableEq, Repr

/-- The lines of a cell. -/
abbrev Cell := List (List Char)

def cell (s : String) : Cell := s.toList.splitOn '\n'

def Cell.width (c : Cell) : Nat := (c.map Text.width).foldl max 0

/-- Fills a line with blanks up to a width. -/
def pad (align : Align) (width : Nat) (line : List Char) : List Char :=
  let blanks := List.replicate (width - Text.width line) ' '
  match align with
  | .left => line ++ blanks
  | .right => blanks ++ line

/-- The width that no column exceeds. -/
def widthLimit : Nat := 65535

/-- The width of the column of the given index. -/
def columnWidth (rows : List (List Cell)) (index : Nat) : Nat :=
  min widthLimit ((rows.map fun row => Cell.width (row.getD index [])).foldl max 0)

/-- One line of a cell with its share of the gaps before and behind the column. Where the cell has no
line there are blanks, together no more than the limit. -/
def place (align : Align) (width : Nat) (before behind : List Char) :
    Option (List Char) → List Char
  | some line => before ++ pad align width line ++ behind
  | none => List.replicate (min widthLimit (before.length + width + behind.length)) ' '

/-- The lines of one row: as many as its highest cell has. -/
def rowLines (columns : List (Align × Nat)) (row : List Cell) : List (List Char) :=
  let row := columns.zipWith (fun (_, width) (cell : Cell) => cell.flatMap (Wrap.lines width)) row
  let height := (row.map List.length).foldl max 0
  (List.range height).map fun i =>
    let parts := (columns.zip row).mapIdx fun k ((align, width), cell) =>
      place align width (if k = 0 then [] else [' '])
        (if k + 1 = columns.length then [] else [' ']) cell[i]?
    Text.trimEnd parts.flatten

/-- The text of a table, each line after the indent. A column is as wide as its widest cell, the
header included, up to the limit; columns stand two blanks apart, and blanks at the end of a line
are cut. -/
def render (indent : String) (columns : List (String × Align)) (rows : List (List String)) :
    String :=
  let cells := columns.map (fun c => cell c.1) :: rows.map fun row => row.map cell
  let widths := (List.range columns.length).map (columnWidth cells)
  let lines := cells.flatMap (rowLines ((columns.map Prod.snd).zip widths))
  String.ofList (lines.flatMap fun line => indent.toList ++ line ++ ['\n'])

end LeakTrace.Columns
