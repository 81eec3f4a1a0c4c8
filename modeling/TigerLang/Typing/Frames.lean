import TigerLang.Typing.Ty

/-! Frames: each function keeps its parameters and variables in slots of its own frame, and code in
an inner function reaches an outer frame by following static links. -/

namespace TigerLang

/-- A frame is finalized once the body of its function has been seen to the end. -/
structure Frame where
  name : String
  level : Nat
  parent : Option Nat
  slots : Array Ty
  finalized : Bool
  deriving DecidableEq, Repr, Inhabited

structure Slot where
  frame : Nat
  level : Nat
  offset : Nat
  deriving DecidableEq, Repr, Inhabited

/-- The static link is field zero of a frame, and the slots follow it. -/
def Slot.memberIndex (slot : Slot) : UInt32 := slot.offset.toUInt32 + 1

def staticLinks (fromLevel targetLevel : Nat) : Nat := fromLevel - targetLevel

/-- All frames by number, and the functions being checked, the innermost first. -/
structure Frames where
  frames : Array Frame
  active : List Nat
  deriving DecidableEq, Repr, Inhabited

namespace Frames

def mainFrame : Nat := 0

def initial : Frames := ⟨#[⟨"main", 0, none, #[], false⟩], []⟩

def current (l : Frames) : Nat := l.active.head?.getD mainFrame

def level (l : Frames) : Nat := ((l.frames[l.current]?).map Frame.level).getD 0

def declare (l : Frames) (name : String) : Nat × Frames :=
  let frame : Frame := ⟨name, l.level + 1, some l.current, #[], false⟩
  (l.frames.size, { l with frames := l.frames.push frame })

def enter (l : Frames) (frame : Nat) : Frames := { l with active := frame :: l.active }

def finalize (l : Frames) (frame : Nat) : Frames :=
  { l with frames := l.frames.modify frame fun f => { f with finalized := true } }

def leave (l : Frames) : Frames :=
  match l.active with
  | [] => l
  | frame :: outer => { l with active := outer }.finalize frame

def reserve (l : Frames) (ty : Ty) : Slot × Frames :=
  let id := l.current
  let offset := ((l.frames[id]?).map fun f => f.slots.size).getD 0
  (⟨id, l.level, offset⟩,
    { l with frames := l.frames.modify id fun f => { f with slots := f.slots.push ty } })

def closeMain (l : Frames) : Frames := l.finalize mainFrame

end Frames

end TigerLang
