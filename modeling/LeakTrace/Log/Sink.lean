import LeakTrace.Node

namespace LeakTrace

/-- A sink hit: the statement that called the sink, and the signature of what it called. -/
structure Sink where
  statement : String
  detail : String
deriving DecidableEq, Repr

namespace Sink

/-- Descriptor form of a class name: `Lcom/app/Main;` stays as it is, and `com.app.Main` or
`com/app/Main` is brought to it. -/
def classDescriptor (cls : List Char) : List Char :=
  if cls.head? = some 'L' ∧ cls.getLast? = some ';' then cls
  else 'L' :: Text.exchange '.' '/' cls ++ [';']

/-- The class, in descriptor form, and the method name of the sink statement. -/
def classAndMethod? (s : Sink) : Option (String × String) :=
  (Text.cut "->" s.statement.toList).map fun (cls, method) =>
    (String.ofList (classDescriptor cls), String.ofList (Text.before '(' method))

/-- The node's statement names the class and the method of the sink statement. -/
def matches? (s : Sink) (n : Node) : Bool :=
  match s.classAndMethod?, n.className?, n.methodName? with
  | some (cls, method), some cls', some method' => cls = cls' && method = method'
  | _, _, _ => false

end Sink

end LeakTrace
