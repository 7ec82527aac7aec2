import LeakTrace.Bytecode.Descriptor

namespace LeakTrace

/-- A reference to a method, `<class>-><name>(<parameters>)<type>`, where class, parameters and type
are type descriptors. -/
structure MethodRef where
  cls : TypeDescriptor
  name : String
  parameters : List TypeDescriptor
  result : TypeDescriptor
deriving DecidableEq, Repr

namespace MethodRef

def text (m : MethodRef) : String :=
  "<" ++ m.cls.text ++ ": " ++ m.result.text ++ " " ++ m.name ++ "(" ++
    ",".intercalate (m.parameters.map TypeDescriptor.text) ++ ")>"

instance : ToString MethodRef := ⟨text⟩

/-- Name, parameter list and result, as a reference writes them after the arrow. -/
def encodeMember (m : MethodRef) : List Char :=
  m.name.toList ++ '(' :: m.parameters.flatMap TypeDescriptor.encode ++ ')' :: m.result.encode

def encode (m : MethodRef) : List Char := m.cls.encode ++ "->".toList ++ m.encodeMember

/-- Reads a reference from the texts before and after the arrow. -/
def ofParts (cls method : List Char) : Except DescriptorFault MethodRef :=
  match Text.cut "(" method with
  | none => .error (.methodWithoutParameters (String.ofList method))
  | some (name, signature) =>
    match Text.cut ")" signature with
    | none => .error (.unterminatedParameters (String.ofList method))
    | some (parameters, result) => do
      let cls ← TypeDescriptor.read cls
      let parameters ← TypeDescriptor.readList parameters
      let result ← TypeDescriptor.read result
      return ⟨cls, String.ofList name, parameters, result⟩

def read (cs : List Char) : Except DescriptorFault MethodRef :=
  match Text.cut "->" (Text.trim cs) with
  | none => .error (.methodWithoutArrow (String.ofList cs))
  | some (cls, method) => ofParts cls method

/-- The method through which reflection calls any other. -/
def isReflectiveInvoke (m : MethodRef) : Bool :=
  m.name = "invoke" && m.cls = .object "java.lang.reflect.Method"

end MethodRef

/-- A reference to a field, `<class>-><name>:<type>`. -/
structure FieldRef where
  cls : TypeDescriptor
  name : String
  type : TypeDescriptor
deriving DecidableEq, Repr

namespace FieldRef

def text (f : FieldRef) : String :=
  "<" ++ f.cls.text ++ ": " ++ f.type.text ++ " " ++ f.name ++ ">"

instance : ToString FieldRef := ⟨text⟩

def encode (f : FieldRef) : List Char :=
  f.cls.encode ++ "->".toList ++ f.name.toList ++ ':' :: f.type.encode

def read (cs : List Char) : Except DescriptorFault FieldRef :=
  match Text.cut "->" (Text.trim cs) with
  | none => .error (.fieldWithoutArrow (String.ofList cs))
  | some (cls, field) =>
    match Text.cut ":" field with
    | none => .error (.fieldWithoutType (String.ofList cs))
    | some (name, type) => do
      let cls ← TypeDescriptor.read cls
      let type ← TypeDescriptor.read type
      return ⟨cls, String.ofList name, type⟩

end FieldRef

end LeakTrace
