import TigerLang.Grammar.Parser
import TigerLang.Grammar.Rules

/-! Type expressions and lists of typed names. -/

namespace TigerLang.Parser

def field : Parser Field := do
  let start ← position
  let name ← identifier "for field name"
  let _ ← expect .colon
  let typeName ← identifier "for field type"
  return ⟨← node start, name, typeName⟩

def fields (stop : TokenKind) : Parser (List Field) := commaSeparated stop field

def nameType : Parser TypeExp := do
  let token ← expect .identifier
  return .name token.span token.value

def recordType : Parser TypeExp := do
  let start := (← advance).span.start
  let fields ← fields .closeCurly
  let _ ← expect .closeCurly
  return .record (← spanSince start) fields

def arrayType : Parser TypeExp := do
  let start := (← advance).span.start
  let _ ← expect .ofWord
  let element ← identifier "for array element type"
  return .array (← spanSince start) element

def typeExp (g : Grammar) : Parser TypeExp := do
  match g.typeForm (← kind) with
  | none => unexpected
  | some .name => nameType
  | some .record => recordType
  | some .array => arrayType

end TigerLang.Parser
