import TigerLang.Grammar.Forms

/-! Whole expressions and programs. -/

namespace TigerLang

namespace Parser

/-- Reads one expression. The expressions inside it start further on, since every form that has
some reads a token first. -/
def expressionFrom (g : Grammar) (power : Power) (s : Cursor) : Except Diagnostic Exp × Cursor :=
  let inner : Power → Parser Exp := fun innerPower => ⟨fun s' =>
    if s'.remaining < s.remaining then expressionFrom g innerPower s' else unexpected.run s'⟩
  match g.opening s.kind with
  | none => unexpected.run s
  | some form => (opened g inner form >>= climb g inner power).run s
termination_by s.remaining

def expression (g : Grammar) (power : Power) : Parser Exp := ⟨expressionFrom g power⟩

def program : Parser Exp := do
  let e ← expression .tiger .lowest
  if (← kind) = .eof then return e else unexpected

end Parser

def parse (file : String) (tokens : List Token) : Except Diagnostic Exp × Cursor :=
  Parser.program.run (.ofTokens file tokens)

end TigerLang
