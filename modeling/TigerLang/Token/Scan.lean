import TigerLang.Text.Width
import TigerLang.Token.Lexeme

/-! A source text as a list of tokens. -/

namespace TigerLang.Token

def scanFrom (file : String) (offset : Nat) (text : List Char) : Except Diagnostic (List Token) :=
  match text with
  | [] => .ok [atEnd (.ofOffset file offset)]
  | c :: cs =>
    match _h : Lexeme.read c cs with
    | .error cause => .error ⟨cause, .ofOffset file offset⟩
    | .ok lexeme => do
      let width := Text.width lexeme.text
      let tokens ← scanFrom file (offset + width) lexeme.rest
      match lexeme.token with
      | none => return tokens
      | some (kind, value) => return ⟨kind, value, .ofWidth file offset width⟩ :: tokens
termination_by text.length
decreasing_by exact Lexeme.rest_length_lt _h

/-- Tokens that come from no file are said to come from the shell. -/
def defaultFile : String := "shell"

def scan (source file : String) : Except Diagnostic (List Token) :=
  scanFrom file 0 source.toList

end TigerLang.Token
