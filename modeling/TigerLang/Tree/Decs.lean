import TigerLang.Tree.Basic

/-! All declarations of a tree, each before those inside it. -/

namespace TigerLang

mutual

def Exp.allDecs : Exp → List Dec
  | .nil _ | .int _ _ | .str _ _ | .breakLoop _ => []
  | .var _ target => target.allDecs
  | .call _ _ args => Exp.allDecsList args
  | .binary _ _ left right => left.allDecs ++ right.allDecs
  | .record _ _ fields => FieldExp.allDecsList fields
  | .seq _ exps => Exp.allDecsList exps
  | .assign _ target value => target.allDecs ++ value.allDecs
  | .ifThen _ test body => test.allDecs ++ body.allDecs
  | .ifThenElse _ test yes no => test.allDecs ++ yes.allDecs ++ no.allDecs
  | .whileDo _ test body => test.allDecs ++ body.allDecs
  | .forTo _ _ lo hi body => lo.allDecs ++ hi.allDecs ++ body.allDecs
  | .letIn _ decs body => Dec.allDecsList decs ++ body.allDecs
  | .array _ _ size init => size.allDecs ++ init.allDecs

def Var.allDecs : Var → List Dec
  | .simple _ _ => []
  | .field _ base _ => base.allDecs
  | .subscript _ base index => base.allDecs ++ index.allDecs

def Exp.allDecsList : List Exp → List Dec
  | [] => []
  | e :: es => e.allDecs ++ Exp.allDecsList es

def FieldExp.allDecsList : List FieldExp → List Dec
  | [] => []
  | .mk _ _ value :: fields => value.allDecs ++ FieldExp.allDecsList fields

def Dec.allDecsList : List Dec → List Dec
  | [] => []
  | d@(.var _ _ _ init) :: decs => d :: init.allDecs ++ Dec.allDecsList decs
  | d@(.type _ _ _) :: decs => d :: Dec.allDecsList decs
  | d@(.function _ _ _ _ body) :: decs => d :: body.allDecs ++ Dec.allDecsList decs

end

def Exp.functionTotal (e : Exp) : Nat := e.allDecs.countP Dec.isFunction

end TigerLang
