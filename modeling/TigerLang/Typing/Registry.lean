import TigerLang.Typing.Ty

/-! The record and array types declared so far, by number. -/

namespace TigerLang

/-- A record is incomplete until its fields are known. -/
structure RecordType where
  name : String
  fields : List (String × Ty)
  complete : Bool
  deriving DecidableEq, Repr, Inhabited

structure ArrayType where
  name : String
  element : Ty
  deriving DecidableEq, Repr, Inhabited

structure Registry where
  records : Array RecordType
  arrays : Array ArrayType
  deriving DecidableEq, Repr, Inhabited

namespace Registry

def empty : Registry := ⟨#[], #[]⟩

def addRecord (r : Registry) (name : String) : Nat × Registry :=
  (r.records.size, { r with records := r.records.push ⟨name, [], false⟩ })

def fillRecord (r : Registry) (id : Nat) (fields : List (String × Ty)) : Registry :=
  { r with records := r.records.modify id fun record =>
      { record with fields, complete := true } }

def addArray (r : Registry) (name : String) (element : Ty) : Nat × Registry :=
  (r.arrays.size, { r with arrays := r.arrays.push ⟨name, element⟩ })

def field? (r : Registry) (ty : Ty) (name : String) : Option (Nat × Ty) :=
  match ty with
  | .record id => do
    let record ← r.records[id]?
    let place ← record.fields.findIdx? fun (field, _) => field == name
    let (_, type) ← record.fields[place]?
    return (place, type)
  | _ => none

def element? (r : Registry) : Ty → Option Ty
  | .array id => (r.arrays[id]?).map ArrayType.element
  | _ => none

def nameOf (r : Registry) : Ty → String
  | .int => "int"
  | .string => "string"
  | .void => "void"
  | .nil => "nil"
  | .error => "<error>"
  | .record id => match r.records[id]? with
    | some record => record.name
    | none => "record#" ++ id.repr
  | .array id => match r.arrays[id]? with
    | some array => array.name
    | none => "array#" ++ id.repr

/-- Records are laid out alike when their fields have the same types in the same order. -/
def laidOutAlike (r : Registry) : Ty → Ty → Bool
  | .record a, .record b => match r.records[a]?, r.records[b]? with
    | some a, some b => a.fields.map Prod.snd = b.fields.map Prod.snd
    | _, _ => false
  | a, b => a = b

end Registry

end TigerLang
