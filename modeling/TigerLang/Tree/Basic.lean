import TigerLang.Source.Position

/-! Programs as trees. Every expression, variable, declaration and field has a number of its own,
which later passes use to say something about it. -/

namespace TigerLang

structure Node where
  id : Nat
  span : Span
  deriving DecidableEq, Repr, Inhabited

inductive Operator
  | add
  | sub
  | mul
  | div
  | eq
  | neq
  | lt
  | le
  | gt
  | ge
  deriving DecidableEq, Repr

namespace Operator

def symbol : Operator → String
  | add => "+"
  | sub => "-"
  | mul => "*"
  | div => "/"
  | eq => "="
  | neq => "<>"
  | lt => "<"
  | le => "<="
  | gt => ">"
  | ge => ">="

def isArithmetic : Operator → Bool
  | add | sub | mul | div => true
  | _ => false

def isEquality : Operator → Bool
  | eq | neq => true
  | _ => false

end Operator

structure Field where
  node : Node
  name : String
  typeName : String
  deriving DecidableEq, Repr

inductive TypeExp
  | name (span : Span) (target : String)
  | record (span : Span) (fields : List Field)
  | array (span : Span) (element : String)
  deriving DecidableEq, Repr

def TypeExp.span : TypeExp → Span
  | name span _ | record span _ | array span _ => span

def TypeExp.isRecord : TypeExp → Bool
  | record _ _ => true
  | _ => false

mutual

inductive Exp
  | nil (node : Node)
  | int (node : Node) (value : Int64)
  | str (node : Node) (value : String)
  | var (node : Node) (target : Var)
  | call (node : Node) (function : String) (args : List Exp)
  | binary (node : Node) (op : Operator) (left right : Exp)
  | record (node : Node) (typeName : String) (fields : List FieldExp)
  | seq (node : Node) (exps : List Exp)
  | assign (node : Node) (target : Var) (value : Exp)
  | ifThen (node : Node) (test body : Exp)
  | ifThenElse (node : Node) (test yes no : Exp)
  | whileDo (node : Node) (test body : Exp)
  | forTo (node : Node) (name : String) (lo hi body : Exp)
  | breakLoop (node : Node)
  | letIn (node : Node) (decs : List Dec) (body : Exp)
  | array (node : Node) (typeName : String) (size init : Exp)

inductive Var
  | simple (node : Node) (name : String)
  | field (node : Node) (base : Var) (name : String)
  | subscript (node : Node) (base : Var) (index : Exp)

inductive FieldExp
  | mk (span : Span) (name : String) (value : Exp)

inductive Dec
  | var (node : Node) (name : String) (typeName : Option String) (init : Exp)
  | type (node : Node) (name : String) (definition : TypeExp)
  | function (node : Node) (name : String) (params : List Field) (result : Option String)
      (body : Exp)

end

instance : Inhabited Exp := ⟨.nil default⟩

namespace Exp

def node : Exp → Node
  | nil n | int n _ | str n _ | var n _ | call n _ _ | binary n _ _ _ | record n _ _ | seq n _
  | assign n _ _ | ifThen n _ _ | ifThenElse n _ _ _ | whileDo n _ _ | forTo n _ _ _ _
  | breakLoop n | letIn n _ _ | array n _ _ _ => n

def start (e : Exp) : Position := e.node.span.start

end Exp

namespace Var

def node : Var → Node
  | simple n _ | field n _ _ | subscript n _ _ => n

def start (v : Var) : Position := v.node.span.start

end Var

namespace FieldExp

def span : FieldExp → Span
  | mk span _ _ => span

def name : FieldExp → String
  | mk _ name _ => name

def value : FieldExp → Exp
  | mk _ _ value => value

end FieldExp

namespace Dec

def node : Dec → Node
  | var n _ _ _ | type n _ _ | function n _ _ _ _ => n

def name : Dec → String
  | var _ name _ _ | type _ name _ | function _ name _ _ _ => name

def start (d : Dec) : Position := d.node.span.start

def isFunction : Dec → Bool
  | function _ _ _ _ _ => true
  | _ => false

end Dec

end TigerLang
