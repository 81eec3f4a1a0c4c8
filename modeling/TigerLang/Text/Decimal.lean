/-! Decimal integers of 64 bits, with an optional sign. -/

namespace TigerLang.Text

def digitsValue (cs : List Char) : Nat :=
  cs.foldl (fun n c => 10 * n + (c.toNat - '0'.toNat)) 0

def readDigits (cs : List Char) : Option Nat :=
  if cs ≠ [] ∧ cs.all Char.isDigit then some (digitsValue cs) else none

def int64Bound : Nat := 0x8000000000000000

def readInt64 : List Char → Option Int64
  | '-' :: ds => (readDigits ds).bind fun n =>
    if n ≤ int64Bound then some (Int64.ofInt (-n)) else none
  | '+' :: ds => (readDigits ds).bind fun n =>
    if n < int64Bound then some (Int64.ofNat n) else none
  | ds => (readDigits ds).bind fun n =>
    if n < int64Bound then some (Int64.ofNat n) else none

def showInt64 (i : Int64) : String :=
  let value := i.toInt
  if value < 0 then "-" ++ value.natAbs.repr else value.natAbs.repr

end TigerLang.Text
