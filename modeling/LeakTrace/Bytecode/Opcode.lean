import LeakTrace.Text.Cut

namespace LeakTrace

inductive InvokeKind
  | virtual
  | super
  | direct
  | static
  | interface
deriving DecidableEq, Repr

namespace InvokeKind

def all : List InvokeKind := [virtual, super, direct, static, interface]

def name : InvokeKind → String
  | virtual => "virtual"
  | super => "super"
  | direct => "direct"
  | static => "static"
  | interface => "interface"

def ofName? (s : String) : Option InvokeKind := all.find? (·.name = s)

/-- The word that begins the lowered call. -/
def keyword : InvokeKind → String
  | virtual => "virtualinvoke"
  | super | direct => "specialinvoke"
  | static => "staticinvoke"
  | interface => "interfaceinvoke"

/-- The first register of the call is the object that it is made on. -/
def hasReceiver (kind : InvokeKind) : Bool := kind ≠ static

end InvokeKind

inductive BinaryOp
  | add
  | sub
  /-- Subtraction with exchanged operands. -/
  | rsub
  | mul
  | div
  | rem
  | and
  | or
  | xor
  | shl
  | shr
  | ushr
  | cmp
  | cmpl
  | cmpg
deriving DecidableEq, Repr

namespace BinaryOp

def all : List BinaryOp :=
  [add, sub, rsub, mul, div, rem, and, or, xor, shl, shr, ushr, cmp, cmpl, cmpg]

def name : BinaryOp → String
  | add => "add"
  | sub => "sub"
  | rsub => "rsub"
  | mul => "mul"
  | div => "div"
  | rem => "rem"
  | and => "and"
  | or => "or"
  | xor => "xor"
  | shl => "shl"
  | shr => "shr"
  | ushr => "ushr"
  | cmp => "cmp"
  | cmpl => "cmpl"
  | cmpg => "cmpg"

def ofName? (s : String) : Option BinaryOp := all.find? (·.name = s)

def symbol : BinaryOp → String
  | add => "+"
  | sub | rsub => "-"
  | mul => "*"
  | div => "/"
  | rem => "%"
  | and => "&"
  | or => "|"
  | xor => "^"
  | shl => "<<"
  | shr => ">>"
  | ushr => ">>>"
  | cmp => "cmp"
  | cmpl => "cmpl"
  | cmpg => "cmpg"

end BinaryOp

/-- How the operands of a binary operator are written. -/
inductive OperandForm
  | threeRegister
  /-- The first operand is the destination as well. -/
  | twoAddress
  /-- The last operand is a number. -/
  | literal
deriving DecidableEq, Repr

inductive Condition
  | eq
  | ne
  | lt
  | ge
  | gt
  | le
deriving DecidableEq, Repr

namespace Condition

def all : List Condition := [eq, ne, lt, ge, gt, le]

def name : Condition → String
  | eq => "eq"
  | ne => "ne"
  | lt => "lt"
  | ge => "ge"
  | gt => "gt"
  | le => "le"

def ofName? (s : String) : Option Condition := all.find? (·.name = s)

def symbol : Condition → String
  | eq => "=="
  | ne => "!="
  | lt => "<"
  | ge => ">="
  | gt => ">"
  | le => "<="

end Condition

/-- The types between which numbers are converted. -/
inductive Primitive
  | int
  | long
  | float
  | double
  | byte
  | char
  | short
deriving DecidableEq, Repr

namespace Primitive

def all : List Primitive := [int, long, float, double, byte, char, short]

def name : Primitive → String
  | int => "int"
  | long => "long"
  | float => "float"
  | double => "double"
  | byte => "byte"
  | char => "char"
  | short => "short"

def ofName? (s : String) : Option Primitive := all.find? (·.name = s)

end Primitive

inductive UnaryOp
  | neg
  | not
deriving DecidableEq, Repr

namespace UnaryOp

def all : List UnaryOp := [neg, not]

def name : UnaryOp → String
  | neg => "neg"
  | not => "not"

def ofName? (s : String) : Option UnaryOp := all.find? (·.name = s)

end UnaryOp

/-- What a mnemonic stands for. Each falls into one family, which says how its operands are written;
a mnemonic outside all families has no opcode. -/
inductive Opcode
  | nop
  | move
  | moveResult
  | moveException
  | returnVoid
  | returnValue
  | const
  | throw
  | goto
  /-- A branch; with `zero` the second operand is 0 and not written. -/
  | branch (condition : Condition) (zero : Bool)
  | arrayGet
  | arrayPut
  | fieldGet (isStatic : Bool)
  | fieldPut (isStatic : Bool)
  /-- A call; with `range` the registers are written as the first and the last. -/
  | invoke (kind : InvokeKind) (range : Bool)
  | checkCast
  | instanceOf
  | arrayLength
  | newInstance
  | newArray
  | convert (target : Primitive)
  | unary (op : UnaryOp)
  | binary (op : BinaryOp) (form : OperandForm)
  | unsupported
deriving DecidableEq, Repr

namespace Opcode

/-- The mnemonics that are opcodes of their own. -/
def ofWord? : String → Option Opcode
  | "nop" => some nop
  | "return-void" => some returnVoid
  | "return" | "return-wide" | "return-object" => some returnValue
  | "move-exception" => some moveException
  | "throw" => some throw
  | "check-cast" => some checkCast
  | "instance-of" => some instanceOf
  | "array-length" => some arrayLength
  | "new-instance" => some newInstance
  | "new-array" => some newArray
  | _ => none

/-- The families that a first part alone decides, in the order in which they are tried. -/
def families : List (String × Opcode) :=
  [("move-result", moveResult), ("move", move), ("const", const), ("goto", goto)]

def memberFamilies : List (String × Opcode) :=
  [("aget", arrayGet), ("aput", arrayPut), ("iget", fieldGet false), ("sget", fieldGet true),
    ("iput", fieldPut false), ("sput", fieldPut true)]

/-- The opcode of the first family that the mnemonic begins with. -/
def ofFamily? (families : List (String × Opcode)) (mnemonic : List Char) : Option Opcode :=
  (families.find? fun f => Text.Begins f.1 mnemonic).map Prod.snd

/-- A branch, from what follows `if-`. -/
def ofBranch (cs : List Char) : Opcode :=
  let (condition, zero) := match Text.beforeSuffix "z" cs with
    | some condition => (condition, true)
    | none => (cs, false)
  match Condition.ofName? (String.ofList condition) with
  | some condition => branch condition zero
  | none => unsupported

/-- A call, from what follows `invoke-`. -/
def ofInvoke (cs : List Char) : Opcode :=
  let (kind, range) := match Text.beforeSuffix "/range" cs with
    | some kind => (kind, true)
    | none => (cs, false)
  match InvokeKind.ofName? (String.ofList kind) with
  | some kind => invoke kind range
  | none => unsupported

/-- A conversion, from what follows `-to-`. -/
def ofConversion (cs : List Char) : Opcode :=
  match Primitive.ofName? (String.ofList cs) with
  | some target => convert target
  | none => unsupported

/-- The operand form that the end of a mnemonic tells, and the mnemonic without that end. -/
def operandForm (mnemonic : List Char) : List Char × OperandForm :=
  match Text.beforeSuffix "/2addr" mnemonic with
  | some base => (base, .twoAddress)
  | none =>
    match (Text.beforeSuffix "/lit8" mnemonic).or (Text.beforeSuffix "/lit16" mnemonic) with
    | some base => (base, .literal)
    | none => (mnemonic, .threeRegister)

/-- An operator on numbers: its name stands before the first dash. Reversed subtraction takes a
number whether its mnemonic says so or not. -/
def ofArithmetic (mnemonic : List Char) : Opcode :=
  let (base, form) := operandForm mnemonic
  match Text.cut "-" base with
  | none => unsupported
  | some (op, _) =>
    let op := String.ofList op
    match if form = .threeRegister then UnaryOp.ofName? op else none with
    | some op => unary op
    | none =>
      match BinaryOp.ofName? op with
      | some .rsub => binary .rsub .literal
      | some op => binary op form
      | none => unsupported

/-- The opcode of a mnemonic. -/
def decode (mnemonic : List Char) : Opcode :=
  match (ofWord? (String.ofList mnemonic)).or (ofFamily? families mnemonic) with
  | some opcode => opcode
  | none =>
  match Text.afterPrefix "if-" mnemonic with
  | some condition => ofBranch condition
  | none =>
  match ofFamily? memberFamilies mnemonic with
  | some opcode => opcode
  | none =>
  match Text.afterPrefix "invoke-" mnemonic with
  | some kind => ofInvoke kind
  | none =>
  match Text.cut "-to-" mnemonic with
  | some (_, target) => ofConversion target
  | none => ofArithmetic mnemonic

end Opcode

end LeakTrace
