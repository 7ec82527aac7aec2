import LeakTrace.Text.Blank
import LeakTrace.Text.Cut
import LeakTrace.Text.Decimal

namespace LeakTrace.Operands

/-- The parts between commas, at most `n`; the last part keeps the commas that are left. -/
def splitAtMost : Nat → List Char → List (List Char)
  | 0, _ => []
  | 1, cs => [cs]
  | n + 2, cs =>
    match Text.cut "," cs with
    | some (part, rest) => part :: splitAtMost (n + 1) rest
    | none => [cs]

/-- The `n` operands of an instruction. None of them may be empty. -/
def fixed (n : Nat) (cs : List Char) : Option (List String) :=
  let parts := (splitAtMost n cs).map Text.trim
  if parts.length = n ∧ [] ∉ parts then some (parts.map String.ofList) else none

/-- The registers of a list that names each. -/
def registerNames (cs : List Char) : List String :=
  (((cs.splitOn ',').map Text.trim).filter (· ≠ [])).map String.ofList

/-- A register as its letter and its number. -/
def readRegister? : List Char → Option (Char × UInt32)
  | [] => none
  | letter :: number => (Text.readUInt32? number).map fun n => (letter, n)

def registerName (letter : Char) (n : Nat) : String := String.ofList (letter :: Text.digits n)

/-- The registers between two of one letter, both included. -/
def registersBetween? (first last : Char × UInt32) : Option (List String) :=
  if first.1 = last.1 ∧ first.2 ≤ last.2 then
    some ((List.range' first.2.toNat (last.2.toNat - first.2.toNat + 1)).map (registerName first.1))
  else none

/-- The registers of a range. One without two dots is a single register. -/
def registerRange? (cs : List Char) : Option (List String) :=
  match Text.trim cs with
  | [] => some []
  | cs =>
    match Text.cut ".." cs with
    | none => some [String.ofList cs]
    | some (first, last) => do
      registersBetween? (← readRegister? (Text.trim first)) (← readRegister? (Text.trim last))

/-- The registers between braces and what follows the comma after them. -/
def registerList? (range : Bool) (cs : List Char) : Option (List String × List Char) := do
  let (list, rest) ← Text.cut "\x7d" (← Text.afterPrefix "\x7b" cs)
  let reference ← Text.afterPrefix "," (Text.trimStart rest)
  let registers ← if range then registerRange? list else some (registerNames list)
  return (registers, Text.trim reference)

end LeakTrace.Operands
