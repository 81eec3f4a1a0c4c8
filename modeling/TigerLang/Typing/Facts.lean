import Std.Data.TreeMap
import TigerLang.Typing.Frames

/-! What the checker finds out about a program, by the number of the node it concerns. -/

namespace TigerLang

inductive Callee
  | library (symbol : String)
  | user (id : Nat)
  deriving DecidableEq, Repr

structure VarUse where
  slot : Slot
  level : Nat
  deriving DecidableEq, Repr

def VarUse.links (use : VarUse) : Nat := staticLinks use.level use.slot.level

structure Routine where
  name : String
  symbol : String
  frame : Nat
  level : Nat
  params : List Ty
  result : Ty
  deriving DecidableEq, Repr

abbrev NodeMap (α : Type) : Type := Std.TreeMap Nat α

/-- The slots are those of declared variables, loop variables and parameters. -/
structure Facts where
  expTypes : NodeMap Ty
  varTypes : NodeMap Ty
  slots : NodeMap Slot
  varUses : NodeMap VarUse
  calls : NodeMap Callee
  routineOf : NodeMap Nat
  functions : Array Routine

namespace Facts

def empty : Facts := ⟨∅, ∅, ∅, ∅, ∅, ∅, #[]⟩

def expType (a : Facts) (id : Nat) : Ty := a.expTypes.getD id .error

def varType (a : Facts) (id : Nat) : Ty := a.varTypes.getD id .error

def routine? (a : Facts) (dec : Nat) : Option Routine := do
  let id ← a.routineOf[dec]?
  a.functions[id]?

end Facts

end TigerLang
