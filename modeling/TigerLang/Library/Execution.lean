import TigerLang.Library.Strings
import TigerLang.Text.Decimal

/-! Running programs as the standard library sees them: what they read and write, and how they
end. -/

namespace TigerLang.Library

structure Execution where
  input : Bytes
  output : Bytes := []
  errors : String := ""
  deriving DecidableEq, Repr

/-- How a process ends before its time: by its own decision, or by touching memory it does not
have. -/
inductive Ending
  | exit (code : UInt8)
  | crash
  deriving DecidableEq, Repr

abbrev RunM := ExceptT Ending (StateM Execution)

namespace Execution

def print (s : Bytes) : RunM Unit :=
  modify fun p => { p with output := p.output ++ s }

def printInt (i : Int64) : RunM Unit := print (Text.showInt64 i).toUTF8.toList

def flush : RunM Unit := return

def readChar : RunM Bytes := do
  let p ← get
  match p.input with
  | [] => return []
  | b :: rest =>
    set { p with input := rest }
    return upToZero [b]

/-- Only the low eight bits of a code can be seen from outside. -/
def terminate {α : Type} (code : Int64) : RunM α := throw (.exit code.toUInt64.toUInt8)

def stop {α : Type} (message : String) : RunM α := do
  modify fun p => { p with errors := p.errors ++ message }
  throw (.exit 1)

def chr (code : Int64) : RunM Bytes := do
  match chr? code with
  | some s => return s
  | none => stop ("chr(" ++ Text.showInt64 code ++ ") out of range\n")

def substring (s : Bytes) (first n : Int64) : RunM Bytes := do
  match Library.substring s first n with
  | .bytes part => return part
  | .outOfRange =>
    stop ("substring(" ++ Text.showInt64 first ++ ", " ++ Text.showInt64 n ++ ") out of range\n")
  | .outOfBounds => throw .crash

end Execution

end TigerLang.Library
