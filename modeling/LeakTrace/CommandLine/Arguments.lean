import LeakTrace.Text.Cut
import LeakTrace.Text.Plain

namespace LeakTrace.CommandLine

/-- Why an argument list is refused. -/
inductive UsageFault
  | unexpected (argument : String)
  /-- A flag was given a value. -/
  | unexpectedValue (value option : String)
  | missingValue (name : String)
  | repeated (name : String)
  | missing (name : String)
  | unknownCommand (name : String)
  | missingCommand
deriving DecidableEq, Repr

/-- A text that was given, between quotes and without control sequences. -/
def quoted (text : String) : String := "'" ++ String.ofList (Text.plain text.toList) ++ "'"

def UsageFault.message : UsageFault → String
  | unexpected argument => "unexpected argument " ++ quoted argument ++ " found"
  | unexpectedValue value option =>
    "unexpected value " ++ quoted value ++ " for '--" ++ option ++ "' found; no more were expected"
  | missingValue name => "a value is required for '" ++ name ++ "' but none was supplied"
  | repeated name => "the argument '" ++ name ++ "' cannot be used multiple times"
  | missing name => "the required argument '" ++ name ++ "' was not provided"
  | unknownCommand name => "unrecognized subcommand " ++ quoted name
  | missingCommand => "a subcommand is required but one was not provided"

/-- Why reading stops. -/
inductive Stop
  | usage (fault : UsageFault)
  | help
  | version
deriving DecidableEq, Repr

/-- An option of a command. -/
structure OptionSpec where
  name : String
  short : Option Char := none
  takesValue : Bool := false
  /-- The option may be given several times. -/
  repeatable : Bool := false
  /-- The empty text is a value of the option. -/
  emptyAllowed : Bool := false
  /-- Reading stops at the option. -/
  stop : Option Stop := none
deriving DecidableEq, Repr

/-- The operands of a command. -/
structure OperandSpec where
  name : String
  /-- Any number of operands may be given, else one at most. -/
  repeatable : Bool := false
  /-- The empty text is an operand. -/
  emptyAllowed : Bool := false
deriving DecidableEq, Repr

/-- An option or operand that was read. A flag has the empty value. -/
inductive Item
  | option (name value : String)
  | operand (text : String)
deriving DecidableEq, Repr

def values (name : String) (items : List Item) : List String :=
  items.filterMap fun
    | .option name' value => if name' = name then some value else none
    | .operand _ => none

def operands (items : List Item) : List String :=
  items.filterMap fun
    | .option .. => none
    | .operand text => some text

/-- What is known after some arguments: the items read, and an option whose value is the next one. -/
structure Progress where
  items : List Item := []
  pending : Option OptionSpec := none
deriving DecidableEq, Repr

namespace OptionSpec

def help : OptionSpec := { name := "help", short := some 'h', stop := some .help }

def version : OptionSpec := { name := "version", short := some 'V', stop := some .version }

/-- Notes the option with its value. One that may be given once only is not noted again. -/
def note (spec : OptionSpec) (value : String) (items : List Item) : Except Stop (List Item) :=
  if ¬ spec.repeatable ∧ values spec.name items ≠ [] then .error (.usage (.repeated spec.name))
  else .ok (items ++ [.option spec.name value])

/-- Gives the option a value. -/
def accept (spec : OptionSpec) (value : List Char) (items : List Item) : Except Stop (List Item) :=
  if value = [] ∧ ¬ spec.emptyAllowed then .error (.usage (.missingValue spec.name))
  else spec.note (String.ofList value) items

def raise (spec : OptionSpec) (items : List Item) : Except Stop (List Item) :=
  match spec.stop with
  | some stop => .error stop
  | none => spec.note "" items

end OptionSpec

/-- Takes an operand. -/
def OperandSpec.accept (spec : OperandSpec) (text : String) (items : List Item) :
    Except Stop (List Item) :=
  if ¬ spec.repeatable ∧ operands items ≠ [] then .error (.usage (.unexpected text))
  else if text = "" ∧ ¬ spec.emptyAllowed then .error (.usage (.missingValue spec.name))
  else .ok (items ++ [.operand text])

/-- The argument may be an option, so it is no value of one. -/
def looksLikeOption : List Char → Bool
  | '-' :: _ :: _ => true
  | _ => false

/-- Reads what follows two dashes. -/
def readLong (specs : List OptionSpec) (text : List Char) (items : List Item) :
    Except Stop Progress :=
  let (name, value) := match Text.cut "=" text with
    | some (name, value) => (name, some value)
    | none => (text, none)
  match specs.find? (·.name = String.ofList name) with
  | none => .error (.usage (.unexpected ("--" ++ String.ofList name)))
  | some spec =>
    match spec.takesValue, value with
    | true, none => .ok ⟨items, some spec⟩
    | true, some value => (spec.accept value items).map fun items => ⟨items, none⟩
    | false, none => (spec.raise items).map fun items => ⟨items, none⟩
    | false, some value => .error (.usage (.unexpectedValue (String.ofList value) spec.name))

/-- Reads what follows one dash: flags, after which an option may follow with its value. -/
def readShort (specs : List OptionSpec) : List Char → List Item → Except Stop Progress
  | [], items => .ok ⟨items, none⟩
  | c :: cs, items =>
    match specs.find? (·.short = some c) with
    | none => .error (.usage (.unexpected (String.ofList ['-', c])))
    | some spec =>
      if spec.takesValue then
        match cs with
        | [] => .ok ⟨items, some spec⟩
        | '=' :: value => (spec.accept value items).map fun items => ⟨items, none⟩
        | value => (spec.accept value items).map fun items => ⟨items, none⟩
      else do readShort specs cs (← spec.raise items)

/-- Reads one argument that looks like an option. -/
def readOption (specs : List OptionSpec) (arg : List Char) (items : List Item) :
    Except Stop Progress :=
  match arg with
  | '-' :: '-' :: text => readLong specs text items
  | '-' :: text => readShort specs text items
  | text => .error (.usage (.unexpected (String.ofList text)))

/-- Reads an option where the value of another one should stand. An option that is none is the fault;
else the value is missing. -/
def readInstead (specs : List OptionSpec) (pending : OptionSpec) (arg : List Char)
    (items : List Item) : Stop :=
  match readOption specs arg items with
  | .error (.usage fault) => .usage fault
  | _ => .usage (.missingValue pending.name)

/-- Reads the arguments of a command in order; the first fault, or the first option that stops the
reading, decides. The value of an option stands behind an equals sign, right behind a short option,
or in the next argument unless that looks like an option. Two dashes alone make operands of all that
follows. -/
def readItems (specs : List OptionSpec) (operand : OperandSpec) :
    Progress → List String → Except Stop (List Item)
  | ⟨items, none⟩, [] => .ok items
  | ⟨_, some spec⟩, [] => .error (.usage (.missingValue spec.name))
  | ⟨items, some spec⟩, arg :: rest =>
    if arg = "--" then .error (.usage (.missingValue spec.name))
    else if looksLikeOption arg.toList then .error (readInstead specs spec arg.toList items)
    else do readItems specs operand ⟨← spec.accept arg.toList items, none⟩ rest
  | ⟨items, none⟩, arg :: rest =>
    if arg = "--" then rest.foldlM (fun items text => operand.accept text items) items
    else if looksLikeOption arg.toList then do
      readItems specs operand (← readOption specs arg.toList items) rest
    else do readItems specs operand ⟨← operand.accept arg items, none⟩ rest

/-- Reads the flags before the name of a command, the name, and the arguments after it. -/
def readCommand (specs : List OptionSpec) (items : List Item) :
    List String → Except Stop (List Item × String × List String)
  | [] => .error (.usage .missingCommand)
  | arg :: rest =>
    if arg = "--" then .error (.usage (rest.head?.elim .missingCommand .unknownCommand))
    else if looksLikeOption arg.toList then do
      match ← readOption specs arg.toList items with
      | ⟨items, none⟩ => readCommand specs items rest
      | ⟨_, some spec⟩ => .error (.usage (.missingValue spec.name))
    else .ok (items, arg, rest)

end LeakTrace.CommandLine
