import TigerLang.Diagnostic.Basic

/-! What can go wrong while instructions are put together. -/

namespace TigerLang

inductive BuildFault
  | unsetPosition
  | alignment
  | extractOutOfRange
  | bitWidth
  | pointeeTypeMismatch
  | valueTypeMismatch
  | ordering
  | elementPointee
  | elementIndex
  deriving DecidableEq, Repr

def BuildFault.text : BuildFault → String
  | unsetPosition => "Builder position is not set"
  | alignment => "Alignment error"
  | extractOutOfRange => "Aggregate extract index out of range"
  | bitWidth => "Bitwidth of a value is incorrect"
  | pointeeTypeMismatch => "Pointee type does not match the value's type"
  | valueTypeMismatch => "Values do not have the same type"
  | ordering => "Ordering error or mismatch"
  | elementPointee => "GEP pointee is not a struct"
  | elementIndex => "GEP index out of range"

def Diagnostic.ofBuildFault (fault : BuildFault) : Diagnostic := .ofCodegen fault.text

end TigerLang
