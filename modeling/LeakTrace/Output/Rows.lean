import LeakTrace.Bytecode.Resolver
import LeakTrace.Bytecode.ThreeAddress
import LeakTrace.Log.Bindings
import LeakTrace.Path.Basic

namespace LeakTrace

/-- One lowered instruction of a path. -/
structure PathRow where
  index : Nat
  method : String
  line : Int64
  statement : String
deriving DecidableEq, Repr

/-- One instruction of a path as it stands in the table. -/
structure BytecodeRow where
  index : Nat
  cls : String
  method : String
  line : Int64
  instruction : String
deriving DecidableEq, Repr

/-- A path in one line. -/
structure SummaryRow where
  path : String
  sourceStatement : String
  sourceDetail : String
  sinkStatement : String
  sinkDetail : String
  sourceTime : Time
  sinkTime : Time
  length : Nat
deriving DecidableEq, Repr

/-- The instructions behind the steps of a path, lowered to three-address statements and as they
stand in the tables. -/
structure LoweredPath where
  rows : List PathRow
  bytecode : List BytecodeRow
  /-- The number of instructions that could not be lowered. -/
  unsupported : Nat
deriving DecidableEq, Repr

namespace Instruction

/-- The row for an instruction of the given index. -/
def bytecodeRow (i : Instruction) (index : Nat) : BytecodeRow :=
  ⟨index, i.cls, i.method, i.line, i.text⟩

/-- The method as source code writes it; a method that cannot be read as it stands. -/
def methodText (i : Instruction) : String :=
  match MethodRef.ofParts i.cls.toList i.method.toList with
  | .ok m => m.text
  | .error _ => i.cls ++ "->" ++ i.method

/-- A reflective call as a static call of the method that the log names as its target. -/
def reflectiveTarget? (i : Instruction) (bindings : Bindings) : Option ThreeAddress := do
  let (_, reference) ← Text.cutLast "\x7d, " i.text.toList
  let method ← (MethodRef.read reference).toOption
  if method.isReflectiveInvoke then
    let cls ← (TypeDescriptor.read i.cls.toList).toOption
    let target ← bindings.reflectiveTarget? cls.text
    return ThreeAddress.translate ("invoke-static \x7bv0\x7d, ".toList ++ target.toList)
  else none

/-- Lowers the instruction. -/
def lowered (i : Instruction) : ThreeAddress := ThreeAddress.translate i.text.toList

/-- Lowers the first instruction of a path, where a source may have been called by reflection. -/
def loweredFirst (i : Instruction) (bindings : Bindings) : ThreeAddress :=
  (i.reflectiveTarget? bindings).getD i.lowered

end Instruction

namespace LoweredPath

def empty : LoweredPath := ⟨[], [], 0⟩

/-- Adds the row of a lowered instruction, unless it repeats the last row. -/
def addRow (p : LoweredPath) (i : Instruction) (statement : String) : LoweredPath :=
  let repeats := p.rows.getLast?.any fun last =>
    last.method = i.methodText && last.statement = statement
  if repeats then p
  else { p with rows := p.rows ++ [⟨p.rows.length, i.methodText, i.line, statement⟩] }

/-- Adds an instruction together with its lowered form. -/
def add (skipVoidReturns : Bool) (p : LoweredPath) (i : Instruction) (lowered : ThreeAddress) :
    LoweredPath :=
  let p := { p with bytecode := p.bytecode ++ [i.bytecodeRow p.bytecode.length] }
  if skipVoidReturns && lowered.statement? = some "return" then p
  else
    let p := if lowered.isUnsupported then { p with unsupported := p.unsupported + 1 } else p
    p.addRow i lowered.text

/-- Lowers the instructions of a path. -/
def ofInstructions (bindings : Bindings) (skipVoidReturns : Bool) :
    List Instruction → LoweredPath
  | [] => empty
  | first :: rest =>
    rest.foldl (fun p i => p.add skipVoidReturns i i.lowered)
      (empty.add skipVoidReturns first (first.loweredFirst bindings))

end LoweredPath

/-- The summary of the path of the given rank. A path of a graph without a sink ends in the
statement of its own sink node. -/
def LeakPath.summaryRow (p : LeakPath) (rank : Nat) (bindings : Bindings) : SummaryRow :=
  let sink := (bindings.sink? p.graph).getD ⟨p.sink.statement, ""⟩
  { path := p.name rank
    sourceStatement := p.source.statement
    sourceDetail := (bindings.detail? p.source.statement).getD ""
    sinkStatement := sink.statement
    sinkDetail := sink.detail
    sourceTime := p.source.time
    sinkTime := p.sink.time
    length := p.length }

end LeakTrace
