import TigerLang.Proofs.NodeIds
import TigerLang.Typing.Check

/-! Where the parts of a program stand, and what names mean there. This is a matter of the tree
alone: a name means the nearest thing of that name around it. -/

namespace TigerLang

/-- What a part of a program may stand in. In a block it comes after the declarations `before`. -/
inductive Surrounding
  | whileBody
  | forBody (node : Node) (name : String)
  | functionBody (node : Node) (params : List Field)
  | block (decs before : List Dec)

def varDec? (decs : List Dec) (name : String) : Option Nat :=
  decs.findSome? fun
    | .var node other _ _ => if other = name then some node.id else none
    | _ => none

def functionDec? (decs : List Dec) (name : String) : Option Nat :=
  decs.findSome? fun
    | .function node other _ _ _ => if other = name then some node.id else none
    | _ => none

def Surrounding.binder? (name : String) : Surrounding → Option Nat
  | .whileBody => none
  | .forBody node other => if other = name then some node.id else none
  | .functionBody _ params => (params.find? fun param => param.name == name).map (·.node.id)
  | .block _ before => varDec? before name

def Surrounding.callee? (name : String) : Surrounding → Option Nat
  | .block decs _ => functionDec? decs name
  | _ => none

/-- The nearest variable of a name, by its number. The surroundings stand from the inside out. -/
def binder? (around : List Surrounding) (name : String) : Option Nat :=
  around.findSome? (Surrounding.binder? name)

def callee? (around : List Surrounding) (name : String) : Option Nat :=
  around.findSome? (Surrounding.callee? name)

/-- The frame of the nearest function, which is the main one outside of all functions. -/
def frameOf? (facts : Facts) : List Surrounding → Option Nat
  | [] => some Frames.mainFrame
  | .functionBody node _ :: _ => (facts.routine? node.id).map Routine.frame
  | _ :: around => frameOf? facts around

inductive Part
  | exp (e : Exp)
  | var (v : Var)

structure Place where
  around : List Surrounding
  part : Part

mutual

/-- An expression and all parts inside it, each with what it stands in. -/
def Exp.places (around : List Surrounding) : Exp → List Place
  | e@(.nil _) | e@(.int _ _) | e@(.str _ _) | e@(.breakLoop _) => [⟨around, .exp e⟩]
  | e@(.var _ target) => ⟨around, .exp e⟩ :: target.places around
  | e@(.call _ _ args) => ⟨around, .exp e⟩ :: Exp.placesList around args
  | e@(.binary _ _ left right) =>
    ⟨around, .exp e⟩ :: (left.places around ++ right.places around)
  | e@(.record _ _ fields) => ⟨around, .exp e⟩ :: FieldExp.placesList around fields
  | e@(.seq _ exps) => ⟨around, .exp e⟩ :: Exp.placesList around exps
  | e@(.assign _ target value) =>
    ⟨around, .exp e⟩ :: (target.places around ++ value.places around)
  | e@(.ifThen _ test body) => ⟨around, .exp e⟩ :: (test.places around ++ body.places around)
  | e@(.ifThenElse _ test yes no) =>
    ⟨around, .exp e⟩ :: (test.places around ++ (yes.places around ++ no.places around))
  | e@(.whileDo _ test body) =>
    ⟨around, .exp e⟩ :: (test.places around ++ body.places (.whileBody :: around))
  | e@(.forTo node name lo hi body) =>
    ⟨around, .exp e⟩ :: (lo.places around ++ (hi.places around ++
      body.places (.forBody node name :: around)))
  | e@(.letIn _ decs body) =>
    ⟨around, .exp e⟩ :: (Dec.placesList around decs [] decs ++
      body.places (.block decs decs :: around))
  | e@(.array _ _ size init) =>
    ⟨around, .exp e⟩ :: (size.places around ++ init.places around)

def Var.places (around : List Surrounding) : Var → List Place
  | v@(.simple _ _) => [⟨around, .var v⟩]
  | v@(.field _ base _) => ⟨around, .var v⟩ :: base.places around
  | v@(.subscript _ base index) => ⟨around, .var v⟩ :: (base.places around ++ index.places around)

def Exp.placesList (around : List Surrounding) : List Exp → List Place
  | [] => []
  | e :: es => e.places around ++ Exp.placesList around es

def FieldExp.placesList (around : List Surrounding) : List FieldExp → List Place
  | [] => []
  | .mk _ _ value :: fields => value.places around ++ FieldExp.placesList around fields

def Dec.placesList (around : List Surrounding) (all before : List Dec) : List Dec → List Place
  | [] => []
  | d@(.var _ _ _ init) :: decs =>
    init.places (.block all before :: around) ++ Dec.placesList around all (before ++ [d]) decs
  | d@(.type _ _ _) :: decs => Dec.placesList around all (before ++ [d]) decs
  | d@(.function node _ params _ body) :: decs =>
    body.places (.functionBody node params :: .block all before :: around) ++
      Dec.placesList around all (before ++ [d]) decs

end

end TigerLang
