import TigerLang.Typing.Checker

/-! The types that type names stand for. A declaration is looked into when its name is first met.
Records are numbered before their fields are looked at, so that a record may refer to itself, also
by way of other names. Names that only lead back to themselves stand for nothing. -/

namespace TigerLang.CheckM

def resolved? (name : String) : CheckM (Option Ty) := do
  return ((← get).types.find? name).bind TypeBinding.resolved

def settle (name : String) (ty : Ty) : CheckM Unit :=
  modify fun s => { s with
    types := s.types.change name fun entry => { entry with resolved := some ty } }

def declaresRecord (types : Scopes TypeBinding) (name : String) : Bool :=
  match types.find? name with
  | some ⟨some definition, _, _⟩ => definition.isRecord
  | _ => false

def addRecord (name : String) : CheckM Nat :=
  modifyGet fun s =>
    let (id, registry) := s.registry.addRecord name
    (id, { s with registry })

def fillRecord (id : Nat) (fields : List (String × Ty)) : CheckM Unit :=
  modify fun s => { s with registry := s.registry.fillRecord id fields }

def addArray (name : String) (element : Ty) : CheckM Nat :=
  modifyGet fun s =>
    let (id, registry) := s.registry.addArray name element
    (id, { s with registry })

/-- The fields of a record with their types. Of fields with the same name only the first counts. -/
def resolveFields (resolve : String → Position → CheckM Ty) :
    List (String × Ty) → List Field → CheckM (List (String × Ty))
  | found, [] => return found
  | found, field :: fields => do
    if found.any fun (name, _) => name == field.name then
      report (.redefinition .field field.name) field.node.span.start
      resolveFields resolve found fields
    else
      let ty ← resolve field.typeName field.node.span.start
      resolveFields resolve (found ++ [(field.name, ty)]) fields

def resolveDefinition (resolve : String → Position → CheckM Ty) (name : String) :
    TypeExp → CheckM Ty
  | .name span target => resolve target span.start
  | .array span element => do
    let element ← resolve element span.start
    match ← resolved? name with
    | some ty => return ty
    | none => if element.isError then return .error else return .array (← addArray name element)
  | .record _ fields => do
    let id ← addRecord name
    settle name (.record id)
    fillRecord id (← resolveFields resolve [] fields)
    return .record id

/-- What to do about a name that is met again while it is being looked into: `loop` has the names
met since, itself first. If there is a record among them, `restart` begins anew at the name, and
ends at the record, which has its number by now. -/
def resolveLoop (restart : String → Position → CheckM Ty) (name : String)
    (declared position : Position) (loop : List String) : CheckM Ty := do
  let types := (← get).types
  if loop.tail.any (declaresRecord types) then restart name position
  else
    report (.cyclicType name) declared
    loop.forM fun visited => settle visited .error
    return .error

/-- Looks into a name used at `position`, in the course of looking into those in `visiting`. Every
step adds a declared name to these, so `fuel` above the number of names is never used up. -/
def walk (restart : String → Position → CheckM Ty) :
    Nat → List String → String → Position → CheckM Ty
  | 0, _, _, _ => return .error
  | fuel + 1, visiting, name, position => do
    match (← get).types.find? name with
    | none =>
      report (.undefinedName .type name) position
      return .error
    | some ⟨_, some ty, _⟩ => return ty
    | some ⟨none, none, _⟩ => return .error
    | some ⟨some definition, none, declared⟩ =>
      if name ∈ visiting then
        resolveLoop restart name declared position (visiting.dropWhile (· != name))
      else
        let found ← resolveDefinition (walk restart fuel (visiting ++ [name])) name definition
        let ty := (← resolved? name).getD found
        settle name ty
        tell (.resolvedType name ((← get).registry.nameOf ty))
        return ty

/-- A walk that starts with no names, and may start again up to `rounds` times in turn. -/
def freshWalk (fuel : Nat) : Nat → String → Position → CheckM Ty
  | 0, _, _ => return .error
  | rounds + 1, name, position => walk (freshWalk fuel rounds) fuel [] name position

/-- The type of a name. A walk that starts with names already visited may start again without them,
and that one once more at a record that it numbers itself; then all records are numbered. -/
def resolveFrom (visiting : List String) (name : String) (position : Position) : CheckM Ty := do
  let fuel := (← get).types.size + 1
  walk (freshWalk fuel 2) fuel visiting name position

def typeNamed (name : String) (position : Position) : CheckM Ty := resolveFrom [] name position

end TigerLang.CheckM
