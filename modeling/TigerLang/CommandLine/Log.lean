import TigerLang.Text.TerminalSequence

/-! Entries of the log. -/

namespace TigerLang.CommandLine

def indentLines (message : List Char) : List Char :=
  message.flatMap fun c => if c = '\n' then '\n' :: List.replicate 4 ' ' else [c]

def logError (message : String) : String :=
  let entry := "[ERROR tigerc] ".toList ++ indentLines message.toList ++ ['\n']
  String.ofList (Text.TerminalSequence.remove entry)

end TigerLang.CommandLine
