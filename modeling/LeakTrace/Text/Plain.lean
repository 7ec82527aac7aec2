import LeakTrace.Text.Utf8

namespace LeakTrace.Text

/-- Where a text for a terminal stands. -/
inductive Sequence
  /-- Outside of control sequences. -/
  | none
  /-- Behind an escape character. -/
  | escape
  /-- Behind an escape character and marks of the sequence that it begins. -/
  | escapeMarks
  /-- In the parameters of a control sequence. -/
  | parameters
  /-- In a command to the operating system of the terminal, which a bell may end. -/
  | command
  /-- In a string for the terminal, which the byte 9C ends. -/
  | string
deriving DecidableEq, Repr

namespace Sequence

def isControl (c : Char) : Bool := c.toNat < 0x20 || c.toNat = 0x7F

/-- Control characters that are shown. -/
def isLayout (c : Char) : Bool := c = '\t' || c = '\n' || c = '\x0c' || c = '\r'

/-- The sequence that goes on behind an escape character and the given one. -/
def ofIntroducer (c : Char) : Sequence :=
  if c = '[' then .parameters
  else if c = ']' then .command
  else if c = 'P' || c = 'X' || c = '^' || c = '_' then .string
  else if '0' ≤ c && c ≤ '~' then .none
  else if ' ' ≤ c && c ≤ '/' then .escapeMarks
  else .escape

/-- What follows a character that is not shown. An escape character begins a sequence anew, and two
control characters break one off. -/
def next (s : Sequence) (c : Char) : Sequence :=
  if c = '\x1b' then .escape
  else if c = '\x18' || c = '\x1a' then .none
  else match s with
  | .none => .none
  | .escape => ofIntroducer c
  | .escapeMarks => if '0' ≤ c && c ≤ '~' then .none else .escapeMarks
  | .parameters => if '@' ≤ c && c ≤ '~' then .none else .parameters
  | .command => if c = '\x07' then .none else .command
  | .string => if (Utf8.encode (String.singleton c)).contains 0x9C then .none else .string

/-- The character is shown. White space is shown in the sequences that begin with an escape
character, but not in commands and strings. -/
def shows (s : Sequence) (c : Char) : Bool :=
  match s with
  | .none => isLayout c || !isControl c
  | .escape | .escapeMarks | .parameters => isLayout c
  | .command | .string => false

end Sequence

/-- The text that is shown from a place on. White space in a sequence puts it off to the next
control character: the text up to there is shown. -/
def shown : Sequence → (deferred : Bool) → List Char → List Char
  | _, _, [] => []
  | s, deferred, c :: cs =>
    if s.shows c || (deferred && Sequence.none.shows c) then
      if 0x80 ≤ c.toNat then c :: shown .none false cs
      else c :: shown s (s ≠ .none) cs
    else shown (s.next c) false cs

/-- What a terminal shows of a text: no control sequences, and of the control characters white space
alone. -/
def plain (cs : List Char) : List Char := shown .none false cs

end LeakTrace.Text
