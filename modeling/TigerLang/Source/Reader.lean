import TigerLang.Source.Position
import TigerLang.Text.Width

/-! A place in a source text from which reading goes on. -/

namespace TigerLang.Source

structure Reader where
  file : String
  source : String
  offset : Nat := 0
  deriving DecidableEq, Repr

namespace Reader

def advance (reader : Reader) (n : Nat) : Reader := { reader with offset := reader.offset + n }

def remainder (reader : Reader) : String :=
  String.ofList (Text.dropBytes reader.offset reader.source.toList)

def atEnd (reader : Reader) : Bool := reader.source.utf8ByteSize ≤ reader.offset

def position (reader : Reader) : Position := .ofOffset reader.file reader.offset

def spanAhead (reader : Reader) (n : Nat) : Span := .ofWidth reader.file reader.offset n

end Reader

end TigerLang.Source
