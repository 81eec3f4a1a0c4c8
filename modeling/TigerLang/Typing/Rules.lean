import TigerLang.Typing.Checker

/-! The type of an expression or a variable, given the types of its parts. -/

namespace TigerLang.CheckM

def typeOfArithmetic (left right : Ty) (position : Position) : CheckM Ty := do
  discard (require .int left position)
  discard (require .int right position)
  return .int

def typeOfEquality (left right : Ty) (position : Position) : CheckM Ty := do
  if left = .nil ∧ right = .nil then
    report (.typeMismatch "a record" "nil") position
    return .error
  if left = .void ∨ right = .void then
    report (.misuse "values of type `void` cannot be compared") position
    return .error
  discard (require left right position)
  return .int

def typeOfOrder (left right : Ty) (position : Position) : CheckM Ty := do
  match left, right with
  | .int, .int | .string, .string => return .int
  | .error, _ | _, .error => return .int
  | .string, other =>
    discard (require .string other position)
    return .int
  | .int, other | other, _ =>
    discard (require .int other position)
    return .int

def typeOfBinary (op : Operator) (left right : Ty) (position : Position) : CheckM Ty :=
  if op.isArithmetic then typeOfArithmetic left right position
  else if op.isEquality then typeOfEquality left right position
  else typeOfOrder left right position

def checkArgs : List Ty → List (Ty × Position) → CheckM Unit
  | param :: params, (arg, position) :: args => do
    discard (require param arg position)
    checkArgs params args
  | _, _ => return

def typeOfCall (node : Node) (function : String) (args : List (Ty × Position)) : CheckM Ty := do
  match (← get).functions.find? function with
  | none =>
    report (.undefinedName .function function) node.span.start
    return .error
  | some entry =>
    learn fun a => { a with calls := a.calls.insert node.id entry.target }
    if entry.params.length ≠ args.length then
      report (.arityMismatch entry.params.length args.length) node.span.start
    checkArgs entry.params args
    return entry.result

structure GivenField where
  name : String
  position : Position
  ty : Ty
  valuePosition : Position

def checkFields (declared : List (String × Ty)) :
    List GivenField → List (String × Ty) → CheckM Unit
  | field :: fields, (name, ty) :: rest => do
    if field.name = name then discard (require ty field.ty field.valuePosition)
    else if declared.any fun (other, _) => other == field.name then
      report (.misuse ("field `" ++ field.name ++ "` given where `" ++ name ++ "` was declared"))
        field.position
    else report (.undefinedName .field field.name) field.position
    checkFields declared fields rest
  | _, _ => return

def typeOfRecord (ty : Ty) (typeName : String) (fields : List GivenField) (position : Position) :
    CheckM Ty := do
  match ty with
  | .error => return .error
  | .record id =>
    match (← get).registry.records[id]? with
    | none => return .error
    | some record =>
      if record.fields.length ≠ fields.length then
        report (.arityMismatch record.fields.length fields.length) position
      checkFields record.fields fields record.fields
      return ty
  | _ =>
    report (.misuse ("`" ++ typeName ++ "` is not a record type")) position
    return .error

def typeOfArray (ty : Ty) (typeName : String) (init : Ty) (position initPosition : Position) :
    CheckM Ty := do
  match ty with
  | .error => return .error
  | .array _ =>
    let element := ((← get).registry.element? ty).getD .error
    discard (require element init initPosition)
    return ty
  | _ =>
    report (.misuse ("`" ++ typeName ++ "` is not an array type")) position
    return .error

def typeOfSimple (node : Node) (name : String) : CheckM Ty := do
  let s ← get
  match s.vars.find? name with
  | none =>
    report (.undefinedName .variable name) node.span.start
    return .error
  | some entry =>
    learn fun a => { a with
      varUses := a.varUses.insert node.id ⟨entry.slot, s.frames.level⟩ }
    return entry.ty

def typeOfField (base : Ty) (name : String) (position : Position) : CheckM Ty := do
  let registry := (← get).registry
  match base with
  | .error => return .error
  | .record _ =>
    match registry.field? base name with
    | some (_, ty) => return ty
    | none =>
      report (.undefinedName .field name) position
      return .error
  | other =>
    report (.misuse ("value of type `" ++ registry.nameOf other ++ "` has no field `" ++ name ++
      "`")) position
    return .error

def typeOfSubscript (base : Ty) (position : Position) : CheckM Ty := do
  let registry := (← get).registry
  match base with
  | .error => return .error
  | .array _ => return (registry.element? base).getD .error
  | other =>
    report (.misuse ("value of type `" ++ registry.nameOf other ++ "` cannot be subscripted"))
      position
    return .error

/-- The variable of a loop keeps its value for each round. -/
def checkAssignable (target : Var) : CheckM Unit := do
  match target with
  | .simple node name =>
    match (← get).vars.find? name with
    | some ⟨_, _, true⟩ =>
      report (.misuse ("loop variable `" ++ name ++ "` cannot be assigned")) node.span.start
    | _ => return
  | _ => return

/-- The type of both branches, taken from the second if the first does not tell. -/
def typeOfBranches (yes no : Ty) (position : Position) : CheckM Ty := do
  if ← require yes no position then
    match yes with
    | .nil | .error => return no
    | _ => return yes
  else return .error

def typeOfBreak (position : Position) : CheckM Ty := do
  if (← get).loopDepth = 0 then
    report (.misuse "`break` must be inside a loop") position
    return .error
  return .void

end TigerLang.CheckM
