import TigerLang.Text.Glyphless

/-! Text in double quotes, as messages and tree outlines show it. A character that could be mistaken
or not seen is written as an escape, so the quoted form stays on one line and can be read back. -/

namespace TigerLang.Text

def codePointEscape (c : Char) : List Char :=
  '\\' :: 'u' :: '\x7b' :: Nat.toDigits 16 c.toNat ++ ['\x7d']

def quoteChar (c : Char) : List Char :=
  if c = '\x00' then ['\\', '0']
  else if c = '\t' then ['\\', 't']
  else if c = '\n' then ['\\', 'n']
  else if c = '\r' then ['\\', 'r']
  else if c = '\\' then ['\\', '\\']
  else if c = '"' then ['\\', '"']
  else if isGlyphless c then codePointEscape c
  else [c]

def quotedChars (cs : List Char) : List Char :=
  '"' :: cs.flatMap quoteChar ++ ['"']

def quoted (s : String) : String :=
  String.ofList (quotedChars s.toList)

end TigerLang.Text
