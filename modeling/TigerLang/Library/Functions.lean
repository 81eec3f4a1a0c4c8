import TigerLang.Typing.Ty

/-! The functions that every program can call. Some have several names. -/

namespace TigerLang

/-- The symbol is what calls of the function are linked to. -/
structure LibraryFunction where
  name : String
  symbol : String
  params : List Ty
  result : Ty
  deriving DecidableEq, Repr

namespace LibraryFunction

def all : List LibraryFunction :=
  [⟨"print", "print", [.string], .void⟩,
    ⟨"printInt", "printInt", [.int], .void⟩,
    ⟨"printi", "printInt", [.int], .void⟩,
    ⟨"printd", "printInt", [.int], .void⟩,
    ⟨"flush", "flush", [], .void⟩,
    ⟨"readChar", "readChar", [], .string⟩,
    ⟨"getchar", "readChar", [], .string⟩,
    ⟨"ord", "ord", [.string], .int⟩,
    ⟨"chr", "chr", [.int], .string⟩,
    ⟨"length", "length", [.string], .int⟩,
    ⟨"size", "length", [.string], .int⟩,
    ⟨"substring", "substring", [.string, .int, .int], .string⟩,
    ⟨"concat", "concat", [.string, .string], .string⟩,
    ⟨"logicalNot", "logicalNot", [.int], .int⟩,
    ⟨"not", "logicalNot", [.int], .int⟩,
    ⟨"terminate", "terminate", [.int], .void⟩,
    ⟨"exit", "terminate", [.int], .void⟩]

/-- The symbols of the functions that a program cannot name and that are called for it where it
makes records and arrays or compares strings. -/
def hiddenSymbols : List String := ["allocRecord", "allocArray", "stringCompare"]

def symbols : List String := all.map LibraryFunction.symbol ++ hiddenSymbols

def withSymbol? (symbol : String) : Option LibraryFunction :=
  all.find? fun function => function.symbol == symbol

end LibraryFunction

end TigerLang
