import TigerLang.Proofs.Taking
import TigerLang.Text.Decimal
import TigerLang.Token.Lexeme

/-! A written form for every tree, in which each expression stands in parentheses, and trees without
the numbers and the places of their nodes. -/

namespace TigerLang

def TokenKind.text (kind : TokenKind) : String :=
  match (Lexeme.marks ++ Lexeme.reservedWords).find? fun entry => entry.2 = kind with
  | some (text, _) => String.ofList text
  | none => ""

def Operator.kind : Operator → TokenKind
  | .add => .plus
  | .sub => .dash
  | .mul => .star
  | .div => .slash
  | .eq => .equals
  | .neq => .notEquals
  | .lt => .less
  | .le => .lessEquals
  | .gt => .greater
  | .ge => .greaterEquals

namespace Word

def fixed (kind : TokenKind) : Word := (kind, kind.text)

def ident (text : String) : Word := (.identifier, text)

@[simp] theorem fixed_fst (kind : TokenKind) : (fixed kind).1 = kind := rfl

def enclosed (words : List Word) : List Word :=
  fixed .openParen :: (words ++ [fixed .closeParen])

def separated (mark : TokenKind) (items : List (List Word)) : List Word :=
  [fixed mark].intercalate items

def ascribed : Option String → List Word
  | none => []
  | some typeName => [fixed .colon, ident typeName]

end Word

open Word

def Field.words (field : Field) : List Word :=
  [ident field.name, fixed .colon, ident field.typeName]

def TypeExp.words : TypeExp → List Word
  | .name _ target => [ident target]
  | .record _ fields =>
    fixed .openCurly :: (separated .comma (fields.map Field.words) ++ [fixed .closeCurly])
  | .array _ element => [fixed .arrayWord, fixed .ofWord, ident element]

def Var.root : Var → String
  | .simple _ name => name
  | .field _ base _ => base.root
  | .subscript _ base _ => base.root

mutual

@[simp] def Exp.inner : Exp → List Word
  | .nil _ => [fixed .nilWord]
  | .int _ value => [(.number, Text.showInt64 value)]
  | .str _ value => [(.string, value)]
  | .var _ target => ident target.root :: target.suffix
  | .call _ function args =>
    ident function :: fixed .openParen ::
      (separated .comma (Exp.writtenList args) ++ [fixed .closeParen])
  | .binary _ op left right => enclosed left.inner ++ fixed op.kind :: enclosed right.inner
  | .record _ typeName fields =>
    ident typeName :: fixed .openCurly ::
      (separated .comma (FieldExp.wordsList fields) ++ [fixed .closeCurly])
  | .seq _ exps => separated .semicolon (Exp.writtenList exps)
  | .assign _ target value =>
    ident target.root :: (target.suffix ++ fixed .assignment :: enclosed value.inner)
  | .ifThen _ test body =>
    fixed .ifWord :: (enclosed test.inner ++ fixed .thenWord :: enclosed body.inner)
  | .ifThenElse _ test yes no =>
    fixed .ifWord :: (enclosed test.inner ++ fixed .thenWord ::
      (enclosed yes.inner ++ fixed .elseWord :: enclosed no.inner))
  | .whileDo _ test body =>
    fixed .whileWord :: (enclosed test.inner ++ fixed .doWord :: enclosed body.inner)
  | .forTo _ name lo hi body =>
    fixed .forWord :: ident name :: fixed .assignment ::
      (enclosed lo.inner ++ fixed .toWord ::
        (enclosed hi.inner ++ fixed .doWord :: enclosed body.inner))
  | .breakLoop _ => [fixed .breakWord]
  | .letIn _ decs body =>
    fixed .letWord :: (Dec.wordsList decs ++ fixed .inWord ::
      (enclosed body.inner ++ [fixed .endWord]))
  | .array _ typeName size init =>
    ident typeName :: fixed .openBracket :: (enclosed size.inner ++ fixed .closeBracket ::
      fixed .ofWord :: enclosed init.inner)

@[simp] def Var.suffix : Var → List Word
  | .simple _ _ => []
  | .field _ base name => base.suffix ++ [fixed .dot, ident name]
  | .subscript _ base index =>
    base.suffix ++ fixed .openBracket :: (enclosed index.inner ++ [fixed .closeBracket])

@[simp] def Exp.writtenList : List Exp → List (List Word)
  | [] => []
  | e :: es => enclosed e.inner :: Exp.writtenList es

@[simp] def FieldExp.wordsList : List FieldExp → List (List Word)
  | [] => []
  | .mk _ name value :: fields =>
    (ident name :: fixed .equals :: enclosed value.inner) :: FieldExp.wordsList fields

@[simp] def Dec.wordsList : List Dec → List Word
  | [] => []
  | .var _ name typeName init :: decs =>
    fixed .varWord :: ident name :: (ascribed typeName ++ fixed .assignment ::
      (enclosed init.inner ++ Dec.wordsList decs))
  | .type _ name definition :: decs =>
    fixed .typeWord :: ident name :: fixed .equals :: (definition.words ++ Dec.wordsList decs)
  | .function _ name params result body :: decs =>
    fixed .functionWord :: ident name :: fixed .openParen ::
      (separated .comma (params.map Field.words) ++ fixed .closeParen ::
        (ascribed result ++ fixed .equals :: (enclosed body.inner ++ Dec.wordsList decs)))

end

def Exp.written (e : Exp) : List Word := enclosed e.inner

def Field.bare (field : Field) : Field := { field with node := default }

def TypeExp.bare : TypeExp → TypeExp
  | .name _ target => .name default target
  | .record _ fields => .record default (fields.map Field.bare)
  | .array _ element => .array default element

mutual

@[simp] def Exp.bare : Exp → Exp
  | .nil _ => .nil default
  | .int _ value => .int default value
  | .str _ value => .str default value
  | .var _ target => .var default target.bare
  | .call _ function args => .call default function (Exp.bareList args)
  | .binary _ op left right => .binary default op left.bare right.bare
  | .record _ typeName fields => .record default typeName (FieldExp.bareList fields)
  | .seq _ exps => .seq default (Exp.bareList exps)
  | .assign _ target value => .assign default target.bare value.bare
  | .ifThen _ test body => .ifThen default test.bare body.bare
  | .ifThenElse _ test yes no => .ifThenElse default test.bare yes.bare no.bare
  | .whileDo _ test body => .whileDo default test.bare body.bare
  | .forTo _ name lo hi body => .forTo default name lo.bare hi.bare body.bare
  | .breakLoop _ => .breakLoop default
  | .letIn _ decs body => .letIn default (Dec.bareList decs) body.bare
  | .array _ typeName size init => .array default typeName size.bare init.bare

@[simp] def Var.bare : Var → Var
  | .simple _ name => .simple default name
  | .field _ base name => .field default base.bare name
  | .subscript _ base index => .subscript default base.bare index.bare

@[simp] def Exp.bareList : List Exp → List Exp
  | [] => []
  | e :: es => e.bare :: Exp.bareList es

@[simp] def FieldExp.bareList : List FieldExp → List FieldExp
  | [] => []
  | .mk _ name value :: fields => .mk default name value.bare :: FieldExp.bareList fields

@[simp] def Dec.bareList : List Dec → List Dec
  | [] => []
  | .var _ name typeName init :: decs =>
    .var default name typeName init.bare :: Dec.bareList decs
  | .type _ name definition :: decs => .type default name definition.bare :: Dec.bareList decs
  | .function _ name params result body :: decs =>
    .function default name (params.map Field.bare) result body.bare :: Dec.bareList decs

end

mutual

/-- Trees that can be written down: there is no literal for a negative number, and parentheses
around a single expression make no sequence. -/
def Exp.Writable : Exp → Prop
  | .nil _ | .str _ _ | .breakLoop _ => True
  | .int _ value => 0 ≤ value.toInt
  | .var _ target => target.Writable
  | .call _ _ args => Exp.WritableList args
  | .binary _ _ left right => left.Writable ∧ right.Writable
  | .record _ _ fields => FieldExp.WritableList fields
  | .seq _ exps => exps.length ≠ 1 ∧ Exp.WritableList exps
  | .assign _ target value => target.Writable ∧ value.Writable
  | .ifThen _ test body => test.Writable ∧ body.Writable
  | .ifThenElse _ test yes no => test.Writable ∧ yes.Writable ∧ no.Writable
  | .whileDo _ test body => test.Writable ∧ body.Writable
  | .forTo _ _ lo hi body => lo.Writable ∧ hi.Writable ∧ body.Writable
  | .letIn _ decs body => Dec.WritableList decs ∧ body.Writable
  | .array _ _ size init => size.Writable ∧ init.Writable

def Var.Writable : Var → Prop
  | .simple _ _ => True
  | .field _ base _ => base.Writable
  | .subscript _ base index => base.Writable ∧ index.Writable

def Exp.WritableList : List Exp → Prop
  | [] => True
  | e :: es => e.Writable ∧ Exp.WritableList es

def FieldExp.WritableList : List FieldExp → Prop
  | [] => True
  | .mk _ _ value :: fields => value.Writable ∧ FieldExp.WritableList fields

def Dec.WritableList : List Dec → Prop
  | [] => True
  | .var _ _ _ init :: decs => init.Writable ∧ Dec.WritableList decs
  | .type _ _ _ :: decs => Dec.WritableList decs
  | .function _ _ _ _ body :: decs => body.Writable ∧ Dec.WritableList decs

end

end TigerLang
