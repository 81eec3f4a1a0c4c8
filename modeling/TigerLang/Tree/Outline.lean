import TigerLang.Text.Decimal
import TigerLang.Text.Quoted
import TigerLang.Tree.Basic

/-! The outline of a program: a line for each part, indented under the part that it belongs to. -/

namespace TigerLang

structure OutlineLine where
  depth : Nat
  label : String
  deriving DecidableEq, Repr

def OutlineLine.text (line : OutlineLine) : String :=
  String.ofList (List.replicate (2 * line.depth) ' ') ++ line.label ++ "\n"

def typedName (name : String) (typeName : Option String) : String :=
  match typeName with
  | none => name
  | some type => name ++ ": " ++ type

def Field.outline (depth : Nat) (field : Field) : OutlineLine :=
  ⟨depth, "Field " ++ typedName field.name field.typeName⟩

def TypeExp.outline (depth : Nat) : TypeExp → List OutlineLine
  | .name _ target => [⟨depth, "NameType " ++ target⟩]
  | .array _ element => [⟨depth, "ArrayType " ++ element⟩]
  | .record _ fields => ⟨depth, "RecordType"⟩ :: fields.map (·.outline (depth + 1))

mutual

def Exp.outline (depth : Nat) : Exp → List OutlineLine
  | .nil _ => [⟨depth, "NilExp"⟩]
  | .int _ value => [⟨depth, "IntExp " ++ Text.showInt64 value⟩]
  | .str _ value => [⟨depth, "StringExp " ++ Text.quoted value⟩]
  | .var _ target => ⟨depth, "VarExp"⟩ :: target.outline (depth + 1)
  | .call _ function args => ⟨depth, "CallExp " ++ function⟩ :: Exp.outlineList (depth + 1) args
  | .binary _ op left right =>
    ⟨depth, "BinaryExp " ++ op.symbol⟩ :: left.outline (depth + 1) ++ right.outline (depth + 1)
  | .record _ typeName fields =>
    ⟨depth, "RecordExp " ++ typeName⟩ :: FieldExp.outlineList (depth + 1) fields
  | .seq _ exps => ⟨depth, "SequenceExp"⟩ :: Exp.outlineList (depth + 1) exps
  | .assign _ target value =>
    ⟨depth, "AssignExp"⟩ :: target.outline (depth + 1) ++ value.outline (depth + 1)
  | .ifThen _ test body =>
    ⟨depth, "IfExp"⟩ :: test.outline (depth + 1) ++ body.outline (depth + 1)
  | .ifThenElse _ test yes no =>
    ⟨depth, "IfExp"⟩ :: test.outline (depth + 1) ++ yes.outline (depth + 1) ++
      no.outline (depth + 1)
  | .whileDo _ test body =>
    ⟨depth, "WhileExp"⟩ :: test.outline (depth + 1) ++ body.outline (depth + 1)
  | .forTo _ name lo hi body =>
    ⟨depth, "ForExp " ++ name⟩ :: lo.outline (depth + 1) ++ hi.outline (depth + 1) ++
      body.outline (depth + 1)
  | .breakLoop _ => [⟨depth, "BreakExp"⟩]
  | .letIn _ decs body =>
    ⟨depth, "LetExp"⟩ :: Dec.outlineList (depth + 1) decs ++ body.outline (depth + 1)
  | .array _ typeName size init =>
    ⟨depth, "ArrayExp " ++ typeName⟩ :: size.outline (depth + 1) ++ init.outline (depth + 1)

def Var.outline (depth : Nat) : Var → List OutlineLine
  | .simple _ name => [⟨depth, "SimpleVar " ++ name⟩]
  | .field _ base name => ⟨depth, "FieldVar " ++ name⟩ :: base.outline (depth + 1)
  | .subscript _ base index =>
    ⟨depth, "SubscriptVar"⟩ :: base.outline (depth + 1) ++ index.outline (depth + 1)

def Exp.outlineList (depth : Nat) : List Exp → List OutlineLine
  | [] => []
  | e :: es => e.outline depth ++ Exp.outlineList depth es

def FieldExp.outlineList (depth : Nat) : List FieldExp → List OutlineLine
  | [] => []
  | .mk _ name value :: fields =>
    ⟨depth, "Field " ++ name⟩ :: value.outline (depth + 1) ++ FieldExp.outlineList depth fields

def Dec.outlineList (depth : Nat) : List Dec → List OutlineLine
  | [] => []
  | .var _ name typeName init :: decs =>
    ⟨depth, "VarDec " ++ typedName name typeName⟩ :: init.outline (depth + 1) ++
      Dec.outlineList depth decs
  | .type _ name definition :: decs =>
    ⟨depth, "TypeDec " ++ name⟩ :: definition.outline (depth + 1) ++ Dec.outlineList depth decs
  | .function _ name params result body :: decs =>
    ⟨depth, "FunctionDec " ++ typedName name result⟩ :: params.map (·.outline (depth + 1)) ++
      body.outline (depth + 1) ++ Dec.outlineList depth decs

end

def Exp.outlineText (e : Exp) : String := String.join ((e.outline 0).map OutlineLine.text)

end TigerLang
