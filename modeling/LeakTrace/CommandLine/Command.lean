import LeakTrace.CommandLine.Arguments

namespace LeakTrace.CommandLine

structure ExtractOptions where
  log : String
  classes : String
  frameworkClasses : Option String
  preload : List String
  out : String
  sink : String
  keepAlternateRoutes : Bool
  dumpGraphs : Bool
  sequential : Bool
deriving DecidableEq, Repr

inductive Command
  | extract (options : ExtractOptions)
  | inspect (log : String) (boundOnly : Bool)
  | translate (instructions : List String)
deriving DecidableEq, Repr

structure Invocation where
  /-- Print JSON instead of text. -/
  json : Bool
  verbose : Bool
  command : Command
deriving DecidableEq, Repr

/-- The options of every command. -/
def commonSpecs : List OptionSpec :=
  [{ name := "json" }, { name := "verbose", short := some 'v' }, .help]

def programSpecs : List OptionSpec := .version :: commonSpecs

def extractSpecs : List OptionSpec :=
  [{ name := "classes", takesValue := true },
    { name := "framework-classes", takesValue := true },
    { name := "preload", takesValue := true, repeatable := true },
    { name := "out", short := some 'o', takesValue := true },
    { name := "sink", takesValue := true, emptyAllowed := true },
    { name := "keep-alternate-routes" },
    { name := "dump-graphs" },
    { name := "sequential" }] ++ commonSpecs

def inspectSpecs : List OptionSpec := { name := "bound-only" } :: commonSpecs

def isRaised (name : String) (items : List Item) : Bool := values name items ≠ []

/-- The operand that names a log. -/
def logSpec : OperandSpec := { name := "LOG" }

def instructionSpec : OperandSpec := { name := "INSN", repeatable := true, emptyAllowed := true }

/-- The first of some values, one of which must be given. -/
def required (name : String) (values : List String) : Except Stop String :=
  match values with
  | value :: _ => .ok value
  | [] => .error (.usage (.missing name))

def readExtract (items : List Item) : Except Stop Command := do
  return .extract
    { log := ← required "LOG" (operands items)
      classes := ← required "classes" (values "classes" items)
      frameworkClasses := (values "framework-classes" items).head?
      preload := values "preload" items
      out := ← required "out" (values "out" items)
      sink := ((values "sink" items).head?).getD "first"
      keepAlternateRoutes := isRaised "keep-alternate-routes" items
      dumpGraphs := isRaised "dump-graphs" items
      sequential := isRaised "sequential" items }

def readInspect (items : List Item) : Except Stop Command := do
  return .inspect (← required "LOG" (operands items)) (isRaised "bound-only" items)

def readTranslate (items : List Item) : Except Stop Command := do
  let _ ← required "INSN" (operands items)
  return .translate (operands items)

def commandNames : List String := ["extract", "inspect", "translate", "help"]

/-- Why the command that prints help stops: at the first name that is no command, or to print. Only
one command can be named, since commands have no commands of their own. -/
def helpStop : List String → Stop
  | [] => .help
  | name :: rest =>
    if commandNames.contains name then rest.head?.elim .help fun name => .usage (.unknownCommand name)
    else .usage (.unknownCommand name)

/-- Reads the command line. -/
def readInvocation (args : List String) : Except Stop Invocation := do
  let (before, name, rest) ← readCommand programSpecs [] args
  let finish (items : List Item) (command : Command) : Invocation :=
    ⟨isRaised "json" (before ++ items), isRaised "verbose" (before ++ items), command⟩
  match name with
  | "extract" =>
    let items ← readItems extractSpecs logSpec {} rest
    return finish items (← readExtract items)
  | "inspect" =>
    let items ← readItems inspectSpecs logSpec {} rest
    return finish items (← readInspect items)
  | "translate" =>
    let items ← readItems commonSpecs instructionSpec {} rest
    return finish items (← readTranslate items)
  | "help" => throw (helpStop rest)
  | _ => throw (.usage (.unknownCommand name))

end LeakTrace.CommandLine
