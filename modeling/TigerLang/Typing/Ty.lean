/-! Types. Each declaration of a record or an array makes a type of its own, known by its number. -/

namespace TigerLang

/-- The type `nil` has the value that every record type shares, `void` no value, and `error` stands
for a type that could not be found out. -/
inductive Ty
  | int
  | string
  | void
  | nil
  | record (id : Nat)
  | array (id : Nat)
  | error
  deriving DecidableEq, Repr, Inhabited

namespace Ty

def isRecord : Ty → Bool
  | record _ => true
  | _ => false

def isError : Ty → Bool
  | error => true
  | _ => false

/-- Whether a value of the second type can be used where the first is asked for. An unknown type
goes with any, so that one mistake is not reported twice. Two values `nil` have no common record. -/
def accepts : Ty → Ty → Bool
  | error, _ | _, error => true
  | nil, nil => false
  | nil, record _ | record _, nil => true
  | expected, received => expected = received

end Ty

end TigerLang
