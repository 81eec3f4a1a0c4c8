import TigerLang.Typing.TypeNames

/-! Declarations of types and headings of functions, which hold in the whole of their block. -/

namespace TigerLang.CheckM

def declareTypes : List Dec → CheckM (List (String × Position))
  | [] => return []
  | d@(.type _ name definition) :: decs => do
    if (← get).types.hasHere name then
      report (.redefinition .type name) d.start
      declareTypes decs
    else
      modify fun s => { s with types := s.types.bind name ⟨some definition, none, d.start⟩ }
      return (name, d.start) :: (← declareTypes decs)
  | _ :: decs => declareTypes decs

def resolveTypes (names : List (String × Position)) : CheckM Unit :=
  names.forM fun (name, position) => discard (typeNamed name position)

def paramTypes (params : List Field) : CheckM (List Ty) :=
  params.mapM fun param => typeNamed param.typeName param.node.span.start

def addFunction (node : Node) (name symbol : String) (params : List Ty) (result : Ty) :
    CheckM Nat :=
  modifyGet fun s =>
    let id := s.facts.functions.size
    let (frame, frames) := s.frames.declare symbol
    let info : Routine := ⟨name, symbol, frame, s.frames.level + 1, params, result⟩
    (id, { s with
      frames
      facts := { s.facts with
        functions := s.facts.functions.push info
        routineOf := s.facts.routineOf.insert node.id id } })

def declareHeading (node : Node) (name : String) (params : List Field)
    (result : Option String) : CheckM Unit := do
  let params ← paramTypes params
  let result ← match result with
    | some result => typeNamed result node.span.start
    | none => pure .void
  let symbol := name ++ "." ++ node.id.repr
  let id ← addFunction node name symbol params result
  tell (.declaredFunction name symbol)
  if (← get).functions.hasHere name then
    report (.redefinition .function name) node.span.start
  else
    modify fun s => { s with functions := s.functions.bind name ⟨params, result, .user id⟩ }

def declareHeadings : List Dec → CheckM Unit
  | [] => return
  | .function node name params result _ :: decs => do
    declareHeading node name params result
    declareHeadings decs
  | _ :: decs => declareHeadings decs

/-- Types come first and functions after them, so that the declarations of a block may use each
other whatever their order. -/
def declareBlock (decs : List Dec) : CheckM Unit := do
  resolveTypes (← declareTypes decs)
  declareHeadings decs

end TigerLang.CheckM
