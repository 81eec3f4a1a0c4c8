import TigerLang.Source.Position

/-! The words of the language. -/

namespace TigerLang

inductive TokenKind
  | eof
  | number
  | string
  | identifier
  | openBracket
  | closeBracket
  | openCurly
  | closeCurly
  | openParen
  | closeParen
  | assignment
  | equals
  | notEquals
  | less
  | lessEquals
  | greater
  | greaterEquals
  | or
  | and
  | dot
  | semicolon
  | colon
  | comma
  | plus
  | dash
  | slash
  | star
  | arrayWord
  | breakWord
  | doWord
  | elseWord
  | endWord
  | forWord
  | functionWord
  | ifWord
  | inWord
  | letWord
  | nilWord
  | ofWord
  | thenWord
  | toWord
  | typeWord
  | varWord
  | whileWord
  deriving DecidableEq, Repr, Inhabited

namespace TokenKind

def all : List TokenKind :=
  [eof, number, string, identifier, openBracket, closeBracket, openCurly, closeCurly, openParen,
    closeParen, assignment, equals, notEquals, less, lessEquals, greater, greaterEquals, or, and,
    dot, semicolon, colon, comma, plus, dash, slash, star, arrayWord, breakWord, doWord, elseWord,
    endWord, forWord, functionWord, ifWord, inWord, letWord, nilWord, ofWord, thenWord, toWord,
    typeWord, varWord, whileWord]

def name : TokenKind → String
  | eof => "EOF"
  | number => "Number"
  | string => "String"
  | identifier => "Identifier"
  | openBracket => "OpenBracket"
  | closeBracket => "CloseBracket"
  | openCurly => "OpenCurly"
  | closeCurly => "CloseCurly"
  | openParen => "OpenParen"
  | closeParen => "CloseParen"
  | assignment => "Assignment"
  | equals => "Equals"
  | notEquals => "NotEquals"
  | less => "Less"
  | lessEquals => "LessEquals"
  | greater => "Greater"
  | greaterEquals => "GreaterEquals"
  | or => "Or"
  | and => "And"
  | dot => "Dot"
  | semicolon => "Semicolon"
  | colon => "Colon"
  | comma => "Comma"
  | plus => "Plus"
  | dash => "Dash"
  | slash => "Slash"
  | star => "Star"
  | arrayWord => "Array"
  | breakWord => "Break"
  | doWord => "Do"
  | elseWord => "Else"
  | endWord => "End"
  | forWord => "For"
  | functionWord => "Function"
  | ifWord => "If"
  | inWord => "In"
  | letWord => "Let"
  | nilWord => "Nil"
  | ofWord => "Of"
  | thenWord => "Then"
  | toWord => "To"
  | typeWord => "Type"
  | varWord => "Var"
  | whileWord => "While"

def ofName? (text : String) : Option TokenKind := all.find? fun kind => kind.name == text

theorem mem_all (kind : TokenKind) : kind ∈ all := by cases kind <;> decide

end TokenKind

/-- The value is the text of the token, or what a string literal stands for. -/
structure Token where
  kind : TokenKind
  value : String
  span : Span
  deriving DecidableEq, Repr, Inhabited

namespace Token

def atEnd (position : Position) : Token := ⟨.eof, "EOF", ⟨position, position⟩⟩

def label (token : Token) : String :=
  match token.kind with
  | .string | .identifier | .number => token.kind.name ++ " (" ++ token.value ++ ")"
  | kind => kind.name

end Token

end TigerLang
