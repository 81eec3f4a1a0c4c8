import TigerLang.Library.Functions
import TigerLang.Tree.Basic
import TigerLang.Typing.Facts
import TigerLang.Typing.Event
import TigerLang.Typing.Registry
import TigerLang.Typing.Scopes

/-! The state of checking a program, and the steps that all of checking is made of. -/

namespace TigerLang

/-- A type name. Names that the language provides have no definition and a type from the start. -/
structure TypeBinding where
  definition : Option TypeExp
  resolved : Option Ty
  position : Position
  deriving DecidableEq, Repr

structure VarBinding where
  ty : Ty
  slot : Slot
  readOnly : Bool
  deriving DecidableEq, Repr

structure FunBinding where
  params : List Ty
  result : Ty
  target : Callee
  deriving DecidableEq, Repr

/-- Types, variables and functions are named apart from each other. The loop depth counts the loops
around the current expression within its function. -/
structure Checker where
  types : Scopes TypeBinding
  vars : Scopes VarBinding
  functions : Scopes FunBinding
  registry : Registry
  frames : Frames
  facts : Facts
  loopDepth : Nat
  diagnostics : Array Diagnostic
  events : Array Event

namespace Checker

def builtinTypes : Scopes TypeBinding :=
  (Scopes.empty.bind "int" ⟨none, some .int, .nowhere⟩).bind "string"
    ⟨none, some .string, .nowhere⟩

def libraryFunctions : Scopes FunBinding :=
  LibraryFunction.all.foldl
    (fun table f => table.bind f.name ⟨f.params, f.result, .library f.symbol⟩) .empty

def initial : Checker where
  types := builtinTypes
  vars := .empty
  functions := libraryFunctions
  registry := .empty
  frames := .initial
  facts := .empty
  loopDepth := 0
  diagnostics := #[]
  events := #[]

end Checker

abbrev CheckM := StateM Checker

namespace CheckM

def tell (event : Event) : CheckM Unit :=
  modify fun s => { s with events := s.events.push event }

def report (cause : Cause) (position : Position) : CheckM Unit := do
  tell (.reported cause)
  modify fun s => { s with diagnostics := s.diagnostics.push ⟨cause, position⟩ }

def require (expected received : Ty) (position : Position) : CheckM Bool := do
  if expected.accepts received then return true
  let registry := (← get).registry
  report (.typeMismatch (registry.nameOf expected) (registry.nameOf received)) position
  return false

def enterScopes : CheckM Unit :=
  modify fun s => { s with
    types := s.types.enter
    vars := s.vars.enter
    functions := s.functions.enter }

def leaveScopes : CheckM Unit :=
  modify fun s => { s with
    types := s.types.leave
    vars := s.vars.leave
    functions := s.functions.leave }

def inScope {α : Type} (action : CheckM α) : CheckM α := do
  enterScopes
  tell (.enteredScope (← get).vars.depth)
  let a ← action
  leaveScopes
  return a

def reserve (ty : Ty) : CheckM Slot :=
  modifyGet fun s =>
    let (slot, frames) := s.frames.reserve ty
    (slot, { s with frames })

def learn (f : Facts → Facts) : CheckM Unit :=
  modify fun s => { s with facts := f s.facts }

def noteExp (node : Node) (find : CheckM Ty) : CheckM Ty := do
  let ty ← find
  learn fun a => { a with expTypes := a.expTypes.insert node.id ty }
  return ty

def noteVar (node : Node) (find : CheckM Ty) : CheckM Ty := do
  let ty ← find
  learn fun a => { a with varTypes := a.varTypes.insert node.id ty }
  return ty

def noteSlot (node : Node) (slot : Slot) : CheckM Unit :=
  learn fun a => { a with slots := a.slots.insert node.id slot }

def defineVar (name : String) (entry : VarBinding) (position : Position) : CheckM Unit := do
  if (← get).vars.hasHere name then report (.redefinition .variable name) position
  else modify fun s => { s with vars := s.vars.bind name entry }

end CheckM

end TigerLang
