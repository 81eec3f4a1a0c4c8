import TigerLang.Diagnostic.Basic
import TigerLang.Source.Line
import TigerLang.Text.Blank

/-! Diagnostics as they are shown to the programmer: a heading, the file, and the line at fault with
an arrow under it. -/

namespace TigerLang.Diagnostic

def heading (cause : Cause) : List Char :=
  match cause.tip with
  | none => "Error: ".toList ++ cause.title.toList ++ ['\n']
  | some tip =>
    "Error: ".toList ++ cause.title.toList ++ " (".toList ++ tip.toList ++ [')', '\n']

/-- The indentation is taken off the line, and the arrow moved back by as much. -/
def excerpt (line : Source.Line) : List Char :=
  let number := Nat.toDigits 10 line.number
  let gutter := List.replicate (number.length + 1) ' ' ++ ['|']
  let shown := line.text.dropWhile fun c => c == ' ' || c == '\t'
  let removed := line.text.length - shown.length
  gutter ++ ['\n'] ++
    number ++ " | ".toList ++ Text.trimEnd shown ++ ['\n'] ++
    gutter ++ [' '] ++ List.replicate (line.column - removed) '-' ++ ['^', '\n']

def renderChars (d : Diagnostic) (source : List Char) : List Char :=
  heading d.cause ++ "-> ".toList ++ d.position.file.toList ++ ['\n'] ++
    match Source.lineAt source d.position.offset.toNat with
    | none => []
    | some line => excerpt line

def render (d : Diagnostic) (source : String) : String :=
  String.ofList (d.renderChars source.toList)

end TigerLang.Diagnostic
