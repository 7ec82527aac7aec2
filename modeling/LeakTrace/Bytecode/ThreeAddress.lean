import LeakTrace.Bytecode.Opcode
import LeakTrace.Bytecode.Reference
import LeakTrace.Bytecode.Registers

namespace LeakTrace

/-- What an instruction is lowered to: one statement, which names its operands and writes types and
references as source code does. An unknown mnemonic, and operands that do not fit their opcode, are
reported by the mnemonic. -/
inductive ThreeAddress
  | statement (text : String)
  | unsupported (mnemonic : String)
deriving DecidableEq, Repr

namespace ThreeAddress

def text : ThreeAddress → String
  | statement text => text
  | unsupported mnemonic => "unsupported " ++ mnemonic

instance : ToString ThreeAddress := ⟨text⟩

def isUnsupported : ThreeAddress → Bool
  | statement _ => false
  | unsupported _ => true

def statement? : ThreeAddress → Option String
  | statement text => some text
  | unsupported _ => none

/-- Reports the first word of a text; a text without words as it is. -/
def refuse (cs : List Char) : ThreeAddress :=
  unsupported (String.ofList ((Text.words cs).head?.getD cs))

def readType? (s : String) : Option TypeDescriptor := (TypeDescriptor.read s.toList).toOption

def readField? (s : String) : Option FieldRef := (FieldRef.read s.toList).toOption

/-- The statement of a call. -/
def call? (kind : InvokeKind) (registers : List String) (method : MethodRef) : Option String :=
  if kind.hasReceiver then
    match registers with
    | [] => none
    | receiver :: arguments =>
      some <| kind.keyword ++ " " ++ receiver ++ "." ++ method.text ++ "(" ++
        ", ".intercalate arguments ++ ")"
  else some <| kind.keyword ++ " " ++ method.text ++ "(" ++ ", ".intercalate registers ++ ")"

/-- A binary operator with a destination of its own. A number may be marked with a hash sign. -/
def binaryText (op : BinaryOp) (dest a b : String) : String :=
  let b := String.ofList (b.toList.dropWhile (· = '#'))
  if op = .rsub then dest ++ " = " ++ b ++ " - " ++ a
  else dest ++ " = " ++ a ++ " " ++ op.symbol ++ " " ++ b

/-- The number of operands of an opcode that has a fixed number of them. -/
def operandCount : Opcode → Nat
  | .nop | .returnVoid | .moveResult | .invoke .. | .unsupported => 0
  | .returnValue | .throw | .moveException | .goto => 1
  | .move | .const | .checkCast | .arrayLength | .newInstance | .convert _ | .unary _ => 2
  | .branch _ zero => if zero then 2 else 3
  | .fieldGet isStatic | .fieldPut isStatic => if isStatic then 2 else 3
  | .binary _ form => if form = .twoAddress then 2 else 3
  | .arrayGet | .arrayPut | .instanceOf | .newArray => 3

/-- The statement of an opcode on its operands, of which there are as many as the opcode has. -/
def ofOperands? : Opcode → List String → Option String
  | .nop, _ => some "nop"
  | .returnVoid, _ => some "return"
  | .returnValue, [a] => some ("return " ++ a)
  | .throw, [a] => some ("throw " ++ a)
  | .moveException, [a] => some (a ++ " = @caughtexception")
  | .goto, [label] => some ("goto " ++ label)
  | .move, [dest, a] => some (dest ++ " = " ++ a)
  | .const, [dest, a] => some (dest ++ " = " ++ a)
  | .branch condition true, [a, label] =>
    some ("if " ++ a ++ " " ++ condition.symbol ++ " 0 goto " ++ label)
  | .branch condition false, [a, b, label] =>
    some ("if " ++ a ++ " " ++ condition.symbol ++ " " ++ b ++ " goto " ++ label)
  | .arrayGet, [dest, array, index] => some (dest ++ " = " ++ array ++ "[" ++ index ++ "]")
  | .arrayPut, [a, array, index] => some (array ++ "[" ++ index ++ "] = " ++ a)
  | .fieldGet true, [dest, field] => (readField? field).map fun f => dest ++ " = " ++ f.text
  | .fieldGet false, [dest, object, field] =>
    (readField? field).map fun f => dest ++ " = " ++ object ++ "." ++ f.text
  | .fieldPut true, [a, field] => (readField? field).map fun f => f.text ++ " = " ++ a
  | .fieldPut false, [a, object, field] =>
    (readField? field).map fun f => object ++ "." ++ f.text ++ " = " ++ a
  | .checkCast, [a, type] => (readType? type).map fun t => a ++ " = (" ++ t.text ++ ") " ++ a
  | .instanceOf, [dest, a, type] =>
    (readType? type).map fun t => dest ++ " = " ++ a ++ " instanceof " ++ t.text
  | .arrayLength, [dest, array] => some (dest ++ " = lengthof " ++ array)
  | .newInstance, [dest, type] => (readType? type).map fun t => dest ++ " = new " ++ t.text
  | .newArray, [dest, size, type] =>
    ((readType? type).bind TypeDescriptor.element?).map fun t =>
      dest ++ " = newarray (" ++ t.text ++ ")[" ++ size ++ "]"
  | .convert target, [dest, a] => some (dest ++ " = (" ++ target.name ++ ") " ++ a)
  | .unary .neg, [dest, a] => some (dest ++ " = neg " ++ a)
  | .unary .not, [dest, a] => some (dest ++ " = " ++ a ++ " ^ -1")
  | .binary op .twoAddress, [dest, a] =>
    some (dest ++ " = " ++ dest ++ " " ++ op.symbol ++ " " ++ a)
  | .binary op .threeRegister, [dest, a, b] => some (binaryText op dest a b)
  | .binary op .literal, [dest, a, b] => some (binaryText op dest a b)
  | _, _ => none

/-- The statement of an opcode on the text of its operands. -/
def lower? (opcode : Opcode) (operands : List Char) : Option String :=
  match opcode with
  | .invoke kind range => do
    let (registers, reference) ← Operands.registerList? range operands
    call? kind registers (← (MethodRef.read reference).toOption)
  | opcode => (Operands.fixed (operandCount opcode) operands).bind (ofOperands? opcode)

/-- Lowers an instruction that stands alone. -/
def ofInstruction (cs : List Char) : ThreeAddress :=
  let (mnemonic, operands) := (Text.cutBlank cs).getD (cs, [])
  match lower? (Opcode.decode mnemonic) (Text.trim operands) with
  | some text => statement text
  | none => refuse mnemonic

/-- A call and the register that receives its result: `move-result v0=<call>`. -/
def cutResult? (cs : List Char) : Option (List Char × List Char) :=
  if Text.Begins "move-result" cs then Text.cut "=" cs else none

private theorem length_lt_of_cutResult? {cs result call : List Char}
    (h : cutResult? cs = some (result, call)) : call.length < cs.length := by
  rw [cutResult?] at h
  split at h
  · have := congrArg List.length (Text.eq_of_cut h)
    simp only [List.length_append] at this
    have : 0 < "=".toList.length := by decide
    omega
  · simp at h

private theorem length_trim_le (cs : List Char) : (Text.trim cs).length ≤ cs.length := by
  simp only [Text.trim, Text.trimEnd, Text.trimStart, List.length_reverse]
  exact Nat.le_trans (List.dropWhile_sublist _).length_le
    (by simpa using (List.dropWhile_sublist _).length_le)

/-- Lowers an instruction. A call with a result is lowered without it, and the result becomes the
destination. -/
def translate (cs : List Char) : ThreeAddress :=
  match _h : cutResult? (Text.trim cs) with
  | none => ofInstruction (Text.trim cs)
  | some (result, call) =>
    match (Text.words result)[1]? with
    | none => refuse result
    | some dest =>
      match translate call with
      | statement expression => statement (String.ofList dest ++ " = " ++ expression)
      | unsupported mnemonic => unsupported mnemonic
termination_by cs.length
decreasing_by
  have := length_lt_of_cutResult? _h
  have := length_trim_le cs
  omega

end ThreeAddress

end LeakTrace
