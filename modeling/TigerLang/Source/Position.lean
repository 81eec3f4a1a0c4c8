/-! Places in a source file. Offsets count bytes and have 32 bits: a longer file wraps around. -/

namespace TigerLang

structure Position where
  offset : UInt32
  file : String
  deriving DecidableEq, Repr, Inhabited

structure Span where
  start : Position
  stop : Position
  deriving DecidableEq, Repr, Inhabited

def Position.nowhere : Position := ⟨0, "<null>"⟩

def Position.ofOffset (file : String) (offset : Nat) : Position := ⟨offset.toUInt32, file⟩

def Span.ofWidth (file : String) (offset width : Nat) : Span :=
  ⟨.ofOffset file offset, .ofOffset file (offset + width)⟩

end TigerLang
