import TigerLang.Grammar.Program
import TigerLang.Token.Scan
import TigerLang.Tree.Outline
import TigerLang.Typing.Check

/-! From a source text to its diagnostics. -/

namespace TigerLang

structure Analysis where
  diagnostics : List Diagnostic
  outline : Option String
  events : List Event

namespace Analysis

def isOk (a : Analysis) : Bool := a.diagnostics.isEmpty

/-- The first mistake in the text or the form of a program is the only one to be reported; all
others are found by checking. -/
def ofSource (source file : String) : Analysis :=
  match Token.scan source file with
  | .error d => ⟨[d], none, []⟩
  | .ok tokens =>
    let scanned := Event.tokenized tokens.length
    match (parse file tokens).1 with
    | .error d => ⟨[d], none, [scanned]⟩
    | .ok program =>
      let checker := check program
      let events := scanned :: checker.events.toList
      let diagnostics := checker.diagnostics.toList
      if diagnostics.isEmpty then ⟨[], some program.outlineText, events⟩
      else ⟨diagnostics, some program.outlineText, events ++ [.refused diagnostics.length]⟩

end Analysis

end TigerLang
