import TigerLang.Text.Width

/-! The line of a text that holds a byte offset. -/

namespace TigerLang.Source

/-- A numbered line, counted from one, and a column in it, counted in bytes from zero. -/
structure Line where
  number : Nat
  text : List Char
  column : Nat
  deriving DecidableEq, Repr

def pieces : List Char → List (List Char)
  | [] => []
  | c :: cs =>
    if c = '\n' then [c] :: pieces cs
    else match pieces cs with
      | [] => [[c]]
      | p :: ps => (c :: p) :: ps

def withoutEnding (piece : List Char) : List Char :=
  match piece.reverse with
  | '\n' :: '\r' :: cs => cs.reverse
  | '\n' :: cs => cs.reverse
  | _ => piece

def lineBeyond (offset : Nat) : Nat → Nat → List (List Char) → Option Line
  | _, _, [] => none
  | number, start, p :: ps =>
    if offset < start + Text.width p then some ⟨number, p, offset - start⟩
    else lineBeyond offset (number + 1) (start + Text.width p) ps

/-- An offset inside the text is on the line that holds its byte, which is shown with its newline.
The offset just past the text is at the end of the last line, shown without its ending. -/
def lineAt (text : List Char) (offset : Nat) : Option Line :=
  let lines := pieces text
  if offset < Text.width text then lineBeyond offset 1 0 lines
  else if offset = Text.width text then
    lines.getLast?.map fun p =>
      let line := withoutEnding p
      ⟨lines.length, line, Text.width line⟩
  else none

end TigerLang.Source
