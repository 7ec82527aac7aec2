import LeakTrace.Text.Utf8

namespace LeakTrace.Log

def lineFeed : UInt8 := 10

def carriageReturn : UInt8 := 13

/-- Drops one final `b`, if there is one. -/
def dropFinal (b : UInt8) (bs : List UInt8) : List UInt8 :=
  if bs.getLast? = some b then bs.dropLast else bs

/-- The bytes of each line. -/
def rawLines (bs : List UInt8) : List (List UInt8) :=
  if bs = [] then []
  else ((dropFinal lineFeed bs).splitOn lineFeed).map (dropFinal carriageReturn)

/-- The decoded lines of a log. A final line feed ends the last line and opens no further one; a
carriage return before the end of a line is dropped, once; each line is decoded on its own. -/
def splitLines (bs : List UInt8) : List String :=
  (rawLines bs).map fun raw => String.ofList (Text.Utf8.decodeLossy raw)

end LeakTrace.Log
