/-! The strings of running programs and what the standard library does with them. A string is a row
of bytes other than zero, for in memory it ends at its first zero byte. -/

namespace TigerLang.Library

abbrev Bytes := List UInt8

def upToZero (bytes : Bytes) : Bytes := bytes.takeWhile (· != 0)

def ord : Bytes → Int64
  | [] => -1
  | b :: _ => Int64.ofNat b.toNat

def chr? (code : Int64) : Option Bytes :=
  if code < 0 ∨ 255 < code then none else some (upToZero [UInt8.ofNat code.toInt.toNat])

def length (s : Bytes) : Int64 := Int64.ofNat s.length

inductive Part
  | bytes (part : Bytes)
  | outOfRange
  | outOfBounds
  deriving DecidableEq, Repr

/-- The part of a string that starts at byte `first` and has `n` bytes. The sum of both is taken
with 64 bits: one that does not fit passes the test of range and leads out of the string. -/
def substring (s : Bytes) (first n : Int64) : Part :=
  if first < 0 ∨ n < 0 ∨ length s < first + n then .outOfRange
  else
    let first := first.toInt.toNat
    let n := n.toInt.toNat
    if first + n ≤ s.length then .bytes ((s.drop first).take n) else .outOfBounds

def concat (s t : Bytes) : Bytes := s ++ t

def logicalNot (i : Int64) : Int64 := if i = 0 then 1 else 0

/-- Bytes count as numbers from zero to 255, and a string comes before those that it starts. -/
def compareBytes : Bytes → Bytes → Ordering
  | [], [] => .eq
  | [], _ :: _ => .lt
  | _ :: _, [] => .gt
  | a :: s, b :: t => if a < b then .lt else if b < a then .gt else compareBytes s t

def allocRecord (size : Int64) : Bytes := List.replicate size.toInt.toNat 0

/-- Memory for an array, which has room for one element at least. -/
def allocArray (count elementSize : Int64) : Bytes :=
  let count := if 0 < count then count else 1
  List.replicate (count.toInt.toNat * elementSize.toInt.toNat) 0

end TigerLang.Library
