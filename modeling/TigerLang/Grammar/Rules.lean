import TigerLang.Token.Basic

/-! Which form a token opens or joins, and how tightly operators bind. -/

namespace TigerLang

inductive Power
  | lowest
  | logicalOr
  | logicalAnd
  | relational
  | additive
  | multiplicative
  | unary
  | primary
  deriving DecidableEq, Repr

namespace Power

def level : Power → Nat
  | lowest => 0
  | logicalOr => 1
  | logicalAnd => 2
  | relational => 3
  | additive => 4
  | multiplicative => 5
  | unary => 6
  | primary => 7

instance : LE Power := ⟨fun a b => a.level ≤ b.level⟩

instance (a b : Power) : Decidable (a ≤ b) := inferInstanceAs (Decidable (a.level ≤ b.level))

def all : List Power :=
  [lowest, logicalOr, logicalAnd, relational, additive, multiplicative, unary, primary]

def name : Power → String
  | lowest => "Default"
  | logicalOr => "LogicalOr"
  | logicalAnd => "LogicalAnd"
  | relational => "Relational"
  | additive => "Additive"
  | multiplicative => "Multiplicative"
  | unary => "Unary"
  | primary => "Primary"

def ofName? (text : String) : Option Power := all.find? fun power => power.name == text

end Power

inductive Opening
  | literal
  | identifier
  | minus
  | group
  | ifForm
  | whileForm
  | forForm
  | breakForm
  | letForm
  deriving DecidableEq, Repr

inductive Joining
  | logical
  | binary
  deriving DecidableEq, Repr

inductive DecForm
  | type
  | var
  | function
  deriving DecidableEq, Repr

inductive TypeForm
  | name
  | record
  | array
  deriving DecidableEq, Repr

structure Grammar where
  opening : TokenKind → Option Opening
  joining : TokenKind → Option (Power × Joining)
  declaration : TokenKind → Option DecForm
  typeForm : TokenKind → Option TypeForm

namespace Grammar

def tiger : Grammar where
  opening
    | .number | .string | .nilWord => some .literal
    | .identifier => some .identifier
    | .dash => some .minus
    | .openParen => some .group
    | .ifWord => some .ifForm
    | .whileWord => some .whileForm
    | .forWord => some .forForm
    | .breakWord => some .breakForm
    | .letWord => some .letForm
    | _ => none
  joining
    | .or => some (.logicalOr, .logical)
    | .and => some (.logicalAnd, .logical)
    | .equals | .notEquals | .less | .lessEquals | .greater | .greaterEquals =>
      some (.relational, .binary)
    | .plus | .dash => some (.additive, .binary)
    | .star | .slash => some (.multiplicative, .binary)
    | _ => none
  declaration
    | .typeWord => some .type
    | .varWord => some .var
    | .functionWord => some .function
    | _ => none
  typeForm
    | .identifier => some .name
    | .openCurly => some .record
    | .arrayWord => some .array
    | _ => none

def empty : Grammar := ⟨fun _ => none, fun _ => none, fun _ => none, fun _ => none⟩

end Grammar

end TigerLang
