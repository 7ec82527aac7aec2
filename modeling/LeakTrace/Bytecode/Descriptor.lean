import LeakTrace.Text.Blank
import LeakTrace.Text.Cut

namespace LeakTrace

/-- The type that a descriptor such as `[Ljava/lang/String;` stands for. -/
inductive TypeDescriptor
  | void
  | boolean
  | byte
  | short
  | char
  | int
  | long
  | float
  | double
  /-- A class by its dotted name. -/
  | object (name : String)
  | array (element : TypeDescriptor)
deriving DecidableEq, Repr

/-- Why a text is no descriptor or reference. Each cause carries the text that was at fault. -/
inductive DescriptorFault
  | trailingData (text : String)
  | emptyDescriptor (text : String)
  | unterminatedClass (text : String)
  | emptyClassName (text : String)
  | unknownTag (tag : Char) (text : String)
  | methodWithoutArrow (text : String)
  | methodWithoutParameters (method : String)
  | unterminatedParameters (method : String)
  | fieldWithoutArrow (text : String)
  | fieldWithoutType (text : String)
deriving DecidableEq, Repr

def DescriptorFault.message : DescriptorFault → String
  | trailingData text => "Trailing data after type descriptor - " ++ text
  | emptyDescriptor text => "Empty type descriptor - " ++ text
  | unterminatedClass text => "Unterminated class descriptor - " ++ text
  | emptyClassName text => "Empty class name - " ++ text
  | unknownTag tag text => "Unknown type tag '" ++ tag.toString ++ "' - " ++ text
  | methodWithoutArrow text => "Method reference without '->' - " ++ text
  | methodWithoutParameters method => "Method without parameter list - " ++ method
  | unterminatedParameters method => "Unterminated parameter list - " ++ method
  | fieldWithoutArrow text => "Field reference without '->' - " ++ text
  | fieldWithoutType text => "Field reference without type - " ++ text

namespace TypeDescriptor

/-- The type that a one-letter descriptor stands for. -/
def ofTag? : Char → Option TypeDescriptor
  | 'V' => some void
  | 'Z' => some boolean
  | 'B' => some byte
  | 'S' => some short
  | 'C' => some char
  | 'I' => some int
  | 'J' => some long
  | 'F' => some float
  | 'D' => some double
  | _ => none

/-- The type as source code writes it. -/
def text : TypeDescriptor → String
  | void => "void"
  | boolean => "boolean"
  | byte => "byte"
  | short => "short"
  | char => "char"
  | int => "int"
  | long => "long"
  | float => "float"
  | double => "double"
  | object name => name
  | array element => element.text ++ "[]"

instance : ToString TypeDescriptor := ⟨text⟩

def encode : TypeDescriptor → List Char
  | void => ['V']
  | boolean => ['Z']
  | byte => ['B']
  | short => ['S']
  | char => ['C']
  | int => ['I']
  | long => ['J']
  | float => ['F']
  | double => ['D']
  | object name => 'L' :: Text.exchange '.' '/' name.toList ++ [';']
  | array element => '[' :: element.encode

def element? : TypeDescriptor → Option TypeDescriptor
  | array element => some element
  | _ => none

/-- Reads the descriptor of a type that is no array; `whole` is named in the fault. -/
def readBase (whole : String) : List Char → Except DescriptorFault (TypeDescriptor × List Char)
  | [] => .error (.emptyDescriptor whole)
  | tag :: rest =>
    match ofTag? tag with
    | some type => .ok (type, rest)
    | none =>
      if tag = 'L' then
        match Text.cut ";" rest with
        | none => .error (.unterminatedClass whole)
        | some ([], _) => .error (.emptyClassName whole)
        | some (name, rest) => .ok (object (String.ofList (Text.exchange '/' '.' name)), rest)
      else .error (.unknownTag tag whole)

/-- Reads a descriptor after any number of brackets, each of which makes an array of it. -/
def readWithin (whole : String) : List Char → Except DescriptorFault (TypeDescriptor × List Char)
  | '[' :: rest => (readWithin whole rest).map fun (element, rest) => (array element, rest)
  | cs => readBase whole cs

/-- Reads the descriptor that a text begins with, and gives the rest. -/
def readFirst (cs : List Char) : Except DescriptorFault (TypeDescriptor × List Char) :=
  readWithin (String.ofList cs) cs

private theorem length_lt_of_readBase {whole : String} {cs rest : List Char} {t : TypeDescriptor}
    (h : readBase whole cs = .ok (t, rest)) : rest.length < cs.length := by
  cases cs with
  | nil => simp [readBase] at h
  | cons tag cs =>
    rw [readBase] at h
    split at h
    · obtain ⟨-, rfl⟩ := Prod.mk.inj (Except.ok.inj h)
      simp
    · split at h
      · split at h
        · simp at h
        · simp at h
        · next name rest' _ hc =>
          obtain ⟨-, rfl⟩ := Prod.mk.inj (Except.ok.inj h)
          have := congrArg List.length (Text.eq_of_cut hc)
          simp only [List.length_append, List.length_cons] at this ⊢
          omega
      · simp at h

theorem length_lt_of_readWithin {whole : String} {cs rest : List Char} {t : TypeDescriptor}
    (h : readWithin whole cs = .ok (t, rest)) : rest.length < cs.length := by
  fun_induction readWithin whole cs generalizing t with
  | case1 cs ih =>
    cases hr : readWithin whole cs with
    | error e => simp [hr, Except.map] at h
    | ok p =>
      obtain ⟨u, r⟩ := p
      rw [hr] at h
      obtain ⟨-, rfl⟩ := Prod.mk.inj (Except.ok.inj h)
      have := ih hr
      simp only [List.length_cons]
      omega
  | case2 cs _ => exact length_lt_of_readBase h

/-- Reads a text that is one descriptor, with white space around it. -/
def read (cs : List Char) : Except DescriptorFault TypeDescriptor :=
  match readFirst (Text.trim cs) with
  | .error fault => .error fault
  | .ok (type, rest) =>
    if rest = [] then .ok type else .error (.trailingData (String.ofList cs))

/-- Reads a text that is a sequence of descriptors. -/
def readList (cs : List Char) : Except DescriptorFault (List TypeDescriptor) :=
  if cs = [] then .ok []
  else
    match _h : readFirst cs with
    | .error fault => .error fault
    | .ok (type, rest) => (readList rest).map (type :: ·)
termination_by cs.length
decreasing_by exact length_lt_of_readWithin _h

end TypeDescriptor

end LeakTrace
