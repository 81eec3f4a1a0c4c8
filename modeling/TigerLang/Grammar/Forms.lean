import TigerLang.Grammar.TypeExp
import TigerLang.Text.Decimal

/-! The forms of expressions and declarations. Each is given the way `exp` to read an expression
inside it whose operators bind more tightly than a given power. -/

namespace TigerLang.Parser

variable (g : Grammar) (exp : Power → Parser Exp)

def literal : Parser Exp := do
  let token ← current
  match token.kind with
  | .number =>
    match Text.readInt64 token.value.toList with
    | none => fail ⟨.badNumber token.value, token.span.start⟩
    | some value =>
      let _ ← advance
      return .int (← node token.span.start) value
  | .string =>
    let _ ← advance
    return .str (← node token.span.start) token.value
  | .nilWord =>
    let _ ← advance
    return .nil (← node token.span.start)
  | _ => unexpected

def call (start : Position) (function : String) : Parser Exp := do
  let _ ← expect .openParen
  let args ← commaSeparated .closeParen (exp .lowest)
  let _ ← expect .closeParen
  return .call (← node start) function args

def fieldExp : Parser FieldExp := do
  let start ← position
  let name ← identifier "in record field"
  let _ ← expect .equals
  let value ← exp .lowest
  return .mk (← spanSince start) name value

def record (start : Position) (typeName : String) : Parser Exp := do
  let _ ← expect .openCurly
  let fields ← commaSeparated .closeCurly (fieldExp exp)
  let _ ← expect .closeCurly
  return .record (← node start) typeName fields

def index : Parser Exp := do
  let _ ← advance
  let index ← exp .lowest
  let _ ← expect .closeBracket
  return index

def suffixes (start : Position) (base : Var) : Parser Var :=
  loop (fun base => do
    match ← kind with
    | .dot =>
      let _ ← advance
      let name ← identifier "after `.`"
      return .again (.field (← node start) base name)
    | .openBracket =>
      let index ← index exp
      return .again (.subscript (← node start) base index)
    | _ => return .done base) base

def variableOrAssignment (start : Position) (base : Var) : Parser Exp := do
  let target ← suffixes exp start base
  if (← kind) = .assignment then
    let _ ← advance
    let value ← exp .lowest
    return .assign (← node start) target value
  return .var (← node start) target

def identifierForm : Parser Exp := do
  let token ← advance
  let start := token.span.start
  match ← kind with
  | .openParen => call exp start token.value
  | .openCurly => record exp start token.value
  | .openBracket =>
    let base := Var.simple (← node start) token.value
    let index ← index exp
    if (← kind) = .ofWord then
      let _ ← advance
      let init ← exp .lowest
      return .array (← node start) token.value index init
    variableOrAssignment exp start (.subscript (← node start) base index)
  | _ => variableOrAssignment exp start (.simple (← node start) token.value)

def operator? : TokenKind → Option Operator
  | .plus => some .add
  | .dash => some .sub
  | .star => some .mul
  | .slash => some .div
  | .equals => some .eq
  | .notEquals => some .neq
  | .less => some .lt
  | .lessEquals => some .le
  | .greater => some .gt
  | .greaterEquals => some .ge
  | _ => none

def binary (left : Exp) (power : Power) : Parser Exp := do
  match operator? (← kind) with
  | none => unexpected
  | some op =>
    let _ ← advance
    let right ← exp power
    return .binary (← node left.start) op left right

/-- A number that stands for no text of its own is put where `operator` is. -/
def constant (operator : Token) (value : Int64) : Parser Exp := do
  return .int ⟨← freshId, operator.span⟩ value

/-- A conjunction gives zero unless its left side holds, and a disjunction one if it does. -/
def logical (left : Exp) (power : Power) : Parser Exp := do
  let operator ← advance
  let right ← exp power
  if operator.kind = .and then
    let zero ← constant operator 0
    return .ifThenElse (← node left.start) left right zero
  else
    let one ← constant operator 1
    return .ifThenElse (← node left.start) left one right

def minus : Parser Exp := do
  let operator ← advance
  let operand ← exp .unary
  let zero ← constant operator 0
  return .binary (← node operator.span.start) .sub zero operand

def sequence (stop : TokenKind) : Parser (List Exp) := do
  if (← kind) = stop then return []
  let first ← exp .lowest
  loop (fun exps => do
    if (← kind) = .semicolon then
      let _ ← advance
      let next ← exp .lowest
      return .again (exps ++ [next])
    return .done exps) [first]

def block (start : Position) : List Exp → Parser Exp
  | [e] => return e
  | exps => do return .seq (← node start) exps

def group : Parser Exp := do
  let start := (← advance).span.start
  let exps ← sequence exp .closeParen
  let _ ← expect .closeParen
  block start exps

def ifForm : Parser Exp := do
  let start := (← advance).span.start
  let test ← exp .lowest
  let _ ← expect .thenWord
  let yes ← exp .lowest
  if (← kind) = .elseWord then
    let _ ← advance
    let no ← exp .lowest
    return .ifThenElse (← node start) test yes no
  return .ifThen (← node start) test yes

def whileForm : Parser Exp := do
  let start := (← advance).span.start
  let test ← exp .lowest
  let _ ← expect .doWord
  let body ← exp .lowest
  return .whileDo (← node start) test body

def forForm : Parser Exp := do
  let start := (← advance).span.start
  let name ← identifier "after `for`"
  let _ ← expect .assignment
  let lo ← exp .lowest
  let _ ← expect .toWord
  let hi ← exp .lowest
  let _ ← expect .doWord
  let body ← exp .lowest
  return .forTo (← node start) name lo hi body

def breakForm : Parser Exp := do
  let start := (← advance).span.start
  return .breakLoop (← node start)

def typeDec : Parser Dec := do
  let start := (← advance).span.start
  let name ← identifier "during type declaration"
  let _ ← expect .equals
  let definition ← typeExp g
  return .type (← node start) name definition

def annotation? (context : String) : Parser (Option String) := do
  if (← kind) = .colon then
    let _ ← advance
    return some (← identifier context)
  return none

def varDec : Parser Dec := do
  let start := (← advance).span.start
  let name ← identifier "during variable declaration"
  let typeName ← annotation? "for variable type"
  let _ ← expect .assignment
  let init ← exp .lowest
  return .var (← node start) name typeName init

def functionDec : Parser Dec := do
  let start := (← advance).span.start
  let name ← identifier "during function declaration"
  let _ ← expect .openParen
  let params ← fields .closeParen
  let _ ← expect .closeParen
  let result ← annotation? "for return type"
  let _ ← expect .equals
  let body ← exp .lowest
  return .function (← node start) name params result body

def dec : DecForm → Parser Dec
  | .type => typeDec g
  | .var => varDec exp
  | .function => functionDec exp

def decs : Parser (List Dec) :=
  loop (fun decs => do
    match g.declaration (← kind) with
    | none => return .done decs
    | some form =>
      let next ← dec g exp form
      return .again (decs ++ [next])) []

def letForm : Parser Exp := do
  let start := (← advance).span.start
  let decs ← decs g exp
  let _ ← expect .inWord
  let bodyStart ← position
  let exps ← sequence exp .endWord
  let body ← block bodyStart exps
  let _ ← expect .endWord
  return .letIn (← node start) decs body

def opened : Opening → Parser Exp
  | .literal => literal
  | .identifier => identifierForm exp
  | .minus => minus exp
  | .group => group exp
  | .ifForm => ifForm exp
  | .whileForm => whileForm exp
  | .forForm => forForm exp
  | .breakForm => breakForm
  | .letForm => letForm g exp

def joined (left : Exp) (power : Power) : Joining → Parser Exp
  | .logical => logical exp left power
  | .binary => binary exp left power

/-- Joins operators to the expression on the left as long as they bind more tightly than `power`. -/
def climb (power : Power) (left : Exp) : Parser Exp :=
  loop (fun left => do
    match g.joining (← kind) with
    | none => return .done left
    | some (next, form) =>
      if next ≤ power then return .done left
      return .again (← joined exp left next form)) left

end TigerLang.Parser
