import TigerLang.Typing.TypeNames

/-! Declarations of variables and parameters, and the surroundings that loops and functions make for
their bodies. -/

namespace TigerLang.CheckM

def inLoop {α : Type} (action : CheckM α) : CheckM α := do
  modify fun s => { s with loopDepth := s.loopDepth + 1 }
  let a ← action
  modify fun s => { s with loopDepth := s.loopDepth - 1 }
  return a

def withLoopVar {α : Type} (node : Node) (name : String) (action : CheckM α) : CheckM α := do
  modify fun s => { s with vars := s.vars.enter }
  let slot ← reserve .int
  noteSlot node slot
  modify fun s => { s with vars := s.vars.bind name ⟨.int, slot, true⟩ }
  let a ← action
  modify fun s => { s with vars := s.vars.leave }
  return a

def declaredType (node : Node) (typeName : Option String) (init : Ty) (initPosition : Position) :
    CheckM Ty := do
  match typeName with
  | some typeName =>
    let ty ← typeNamed typeName node.span.start
    discard (require ty init initPosition)
    return ty
  | none =>
    if init = .nil ∨ init = .void then
      report (.typeMismatch "a typed value" ((← get).registry.nameOf init)) initPosition
      return .error
    return init

def declareVar (node : Node) (name : String) (ty : Ty) : CheckM Unit := do
  let slot ← reserve ty
  noteSlot node slot
  defineVar name ⟨ty, slot, false⟩ node.span.start

/-- Parameters take the first slots of the frame. -/
def declareParams : List Field → List Ty → CheckM Unit
  | param :: params, ty :: types => do
    declareVar param.node param.name ty
    declareParams params types
  | _, _ => return

/-- Does something in the frame of a function, where no loop has been entered yet. -/
def inFunction (frame : Nat) (action : CheckM Unit) : CheckM Unit := do
  let outer := (← get).loopDepth
  modify fun s => { s with frames := s.frames.enter frame, loopDepth := 0 }
  action
  modify fun s => { s with frames := s.frames.leave, loopDepth := outer }
  match (← get).frames.frames[frame]? with
  | some f => tell (.finalizedFrame f.name f.level f.slots.size)
  | none => return

end TigerLang.CheckM
