import Mathlib.Data.List.Forall2
import TigerLang.Library.Functions
import TigerLang.Tree.Basic
import TigerLang.Typing.Scopes

/-! The type system of the language, as rules. Types are known by the declarations that make them,
and there is nothing here of how a type is found. -/

namespace TigerLang

/-- A type declaration, and the blocks that it stands in from the inside out, its own first. -/
structure Site where
  node : Node
  name : String
  blocks : List (List Dec)

inductive SiteType
  | int
  | string
  | void
  | nil
  | record (site : Site) (fields : List Field)
  | array (site : Site) (element : String)

def typeDec? (decs : List Dec) (name : String) : Option (Node × TypeExp) :=
  decs.findSome? fun
    | .type node other definition => if other = name then some (node, definition) else none
    | _ => none

/-- What a type name means inside blocks. Names that lead back to themselves without passing a record
mean nothing. -/
inductive Denotes : List (List Dec) → String → SiteType → Prop
  | int : Denotes [] "int" .int
  | string : Denotes [] "string" .string
  | outer {decs blocks name τ} (hname : typeDec? decs name = none) (h : Denotes blocks name τ) :
      Denotes (decs :: blocks) name τ
  | name {decs blocks name node span target τ}
      (hname : typeDec? decs name = some (node, .name span target))
      (h : Denotes (decs :: blocks) target τ) : Denotes (decs :: blocks) name τ
  | array {decs blocks name node span element τ}
      (hname : typeDec? decs name = some (node, .array span element))
      (h : Denotes (decs :: blocks) element τ) :
      Denotes (decs :: blocks) name (.array ⟨node, name, decs :: blocks⟩ element)
  | record {decs blocks name node span fields}
      (hname : typeDec? decs name = some (node, .record span fields)) :
      Denotes (decs :: blocks) name (.record ⟨node, name, decs :: blocks⟩ fields)

/-- A value of the second type may stand where the first is asked for. Two values `nil` have no
common record. -/
inductive Compatible : SiteType → SiteType → Prop
  | same {τ} (h : τ ≠ .nil) : Compatible τ τ
  | nilRecord {site fields} : Compatible .nil (.record site fields)
  | recordNil {site fields} : Compatible (.record site fields) .nil

def OperandsFit (op : Operator) (left right : SiteType) : Prop :=
  if op.isArithmetic then left = .int ∧ right = .int
  else if op.isEquality then Compatible left right ∧ left ≠ .void ∧ right ≠ .void
  else left = .int ∧ right = .int ∨ left = .string ∧ right = .string

structure TypedVar where
  type : SiteType
  readOnly : Bool

structure Signature where
  params : List SiteType
  result : SiteType

/-- What an expression may refer to: types by the blocks around it, and variables and functions by
name, the nearest first. -/
structure Context where
  blocks : List (List Dec)
  vars : Scope TypedVar
  functions : Scope Signature
  inLoop : Bool

namespace Context

def ofLibrary : Ty → SiteType
  | .int => .int
  | .string => .string
  | .nil => .nil
  | _ => .void

def initial : Context where
  blocks := []
  vars := []
  functions := LibraryFunction.all.map fun f => (f.name, ⟨f.params.map ofLibrary, ofLibrary f.result⟩)
  inLoop := false

def withVar (Γ : Context) (name : String) (τ : SiteType) : Context :=
  { Γ with vars := (name, ⟨τ, false⟩) :: Γ.vars }

def withLoopVar (Γ : Context) (name : String) : Context :=
  { Γ with vars := (name, ⟨.int, true⟩) :: Γ.vars, inLoop := true }

def looping (Γ : Context) : Context := { Γ with inLoop := true }

def withParams (Γ : Context) (params : List Field) (types : List SiteType) : Context :=
  { Γ with
    vars := params.zipWith (fun param τ => (param.name, ⟨τ, false⟩)) types ++ Γ.vars
    inLoop := false }

def withBlock (Γ : Context) (decs : List Dec) (signatures : Scope Signature) : Context :=
  { Γ with blocks := decs :: Γ.blocks, functions := signatures ++ Γ.functions }

end Context

def typeNames (decs : List Dec) : List String :=
  decs.filterMap fun
    | .type _ name _ => some name
    | _ => none

def varNames (decs : List Dec) : List String :=
  decs.filterMap fun
    | .var _ name _ _ => some name
    | _ => none

structure TypesFormed (blocks : List (List Dec)) (decs : List Dec) : Prop where
  distinct : (typeNames decs).Nodup
  denote : ∀ name ∈ typeNames decs, ∃ τ, Denotes (decs :: blocks) name τ
  fields : ∀ {name node span fields}, typeDec? decs name = some (node, .record span fields) →
    (fields.map Field.name).Nodup ∧
      ∀ field ∈ fields, ∃ τ, Denotes (decs :: blocks) field.typeName τ

def ParamsDenote (blocks : List (List Dec)) (params : List Field) (types : List SiteType) : Prop :=
  List.Forall₂ (fun param τ => Denotes blocks param.typeName τ) params types

inductive ResultDenotes (blocks : List (List Dec)) : Option String → SiteType → Prop
  | none : ResultDenotes blocks none .void
  | some {name τ} (h : Denotes blocks name τ) : ResultDenotes blocks (some name) τ

inductive Headings (blocks : List (List Dec)) : List Dec → Scope Signature → Prop
  | nil : Headings blocks [] []
  | var {node name typeName init decs signatures} (h : Headings blocks decs signatures) :
      Headings blocks (.var node name typeName init :: decs) signatures
  | type {node name definition decs signatures} (h : Headings blocks decs signatures) :
      Headings blocks (.type node name definition :: decs) signatures
  | function {node name params result body decs types τ signatures}
      (hparams : ParamsDenote blocks params types) (hresult : ResultDenotes blocks result τ)
      (h : Headings blocks decs signatures) :
      Headings blocks (.function node name params result body :: decs)
        ((name, ⟨types, τ⟩) :: signatures)

inductive DeclaredType (blocks : List (List Dec)) : Option String → SiteType → SiteType → Prop
  | inferred {τ} (hnil : τ ≠ .nil) (hvoid : τ ≠ .void) : DeclaredType blocks none τ τ
  | annotated {name τ σ} (h : Denotes blocks name τ) (hinit : Compatible τ σ) :
      DeclaredType blocks (some name) σ τ

def FieldsFit (site : Site) (fields : List Field) (given : List (String × SiteType)) : Prop :=
  List.Forall₂ (fun field typed => typed.1 = field.name ∧
    ∃ τ, Denotes site.blocks field.typeName τ ∧ Compatible τ typed.2) fields given

/-- Of both branches the one that is not `nil` tells the type. -/
def branchType : SiteType → SiteType → SiteType
  | .nil, no => no
  | yes, _ => yes

abbrev Annotations : Type := List (Nat × SiteType)

mutual

/-- In the context an expression has a type, and the expressions inside it have those noted. -/
inductive HasType : Context → Exp → SiteType → Annotations → Prop
  | nil {Γ node} : HasType Γ (.nil node) .nil [(node.id, .nil)]
  | int {Γ node value} : HasType Γ (.int node value) .int [(node.id, .int)]
  | str {Γ node value} : HasType Γ (.str node value) .string [(node.id, .string)]
  | var {Γ node target τ A} (h : VarHasType Γ target τ A) :
      HasType Γ (.var node target) τ ((node.id, τ) :: A)
  | call {Γ node function args signature types A}
      (hargs : ExpsHaveTypes Γ args types A)
      (hfunction : Γ.functions.value? function = some signature)
      (hfit : List.Forall₂ Compatible signature.params types) :
      HasType Γ (.call node function args) signature.result ((node.id, signature.result) :: A)
  | binary {Γ node op left right τ σ A B} (hleft : HasType Γ left τ A) (hright : HasType Γ right σ B)
      (hfit : OperandsFit op τ σ) :
      HasType Γ (.binary node op left right) .int ((node.id, .int) :: (A ++ B))
  | record {Γ node typeName given site fields typed A}
      (htype : Denotes Γ.blocks typeName (.record site fields))
      (hgiven : FieldsHaveTypes Γ given typed A) (hfit : FieldsFit site fields typed) :
      HasType Γ (.record node typeName given) (.record site fields)
        ((node.id, .record site fields) :: A)
  | seq {Γ node exps types A} (h : ExpsHaveTypes Γ exps types A) :
      HasType Γ (.seq node exps) (types.getLast?.getD .void)
        ((node.id, types.getLast?.getD .void) :: A)
  | assign {Γ node target value τ σ A B} (htarget : VarHasType Γ target τ A)
      (hvalue : HasType Γ value σ B)
      (hwritable : ∀ {varNode name var}, target = .simple varNode name →
        Γ.vars.value? name = some var → var.readOnly = false)
      (hfit : Compatible τ σ) :
      HasType Γ (.assign node target value) .void ((node.id, .void) :: (A ++ B))
  | ifThen {Γ node test body A B} (htest : HasType Γ test .int A) (hbody : HasType Γ body .void B) :
      HasType Γ (.ifThen node test body) .void ((node.id, .void) :: (A ++ B))
  | ifThenElse {Γ node test yes no τ σ A B C} (htest : HasType Γ test .int A)
      (hyes : HasType Γ yes τ B) (hno : HasType Γ no σ C) (hfit : Compatible τ σ) :
      HasType Γ (.ifThenElse node test yes no) (branchType τ σ)
        ((node.id, branchType τ σ) :: (A ++ (B ++ C)))
  | whileDo {Γ node test body A B} (htest : HasType Γ test .int A)
      (hbody : HasType Γ.looping body .void B) :
      HasType Γ (.whileDo node test body) .void ((node.id, .void) :: (A ++ B))
  | forTo {Γ node name lo hi body A B C} (hlo : HasType Γ lo .int A) (hhi : HasType Γ hi .int B)
      (hbody : HasType (Γ.withLoopVar name) body .void C) :
      HasType Γ (.forTo node name lo hi body) .void ((node.id, .void) :: (A ++ (B ++ C)))
  | breakLoop {Γ node} (h : Γ.inLoop = true) :
      HasType Γ (.breakLoop node) .void [(node.id, .void)]
  | letIn {Γ Γ' node decs body signatures τ A B} (htypes : TypesFormed Γ.blocks decs)
      (hheadings : Headings (decs :: Γ.blocks) decs signatures)
      (hfunctions : (signatures.map Prod.fst).Nodup) (hvars : (varNames decs).Nodup)
      (hdecs : DecsHaveTypes (Γ.withBlock decs signatures) decs Γ' A)
      (hbody : HasType Γ' body τ B) :
      HasType Γ (.letIn node decs body) τ ((node.id, τ) :: (A ++ B))
  | array {Γ node typeName size init site element τ σ A B}
      (htype : Denotes Γ.blocks typeName (.array site element)) (hsize : HasType Γ size .int A)
      (hinit : HasType Γ init σ B) (helement : Denotes site.blocks element τ)
      (hfit : Compatible τ σ) :
      HasType Γ (.array node typeName size init) (.array site element)
        ((node.id, .array site element) :: (A ++ B))

inductive VarHasType : Context → Var → SiteType → Annotations → Prop
  | simple {Γ node name var} (h : Γ.vars.value? name = some var) :
      VarHasType Γ (.simple node name) var.type []
  | field {Γ node base name site fields field τ A}
      (hbase : VarHasType Γ base (.record site fields) A)
      (hfield : fields.find? (·.name == name) = some field)
      (htype : Denotes site.blocks field.typeName τ) : VarHasType Γ (.field node base name) τ A
  | subscript {Γ node base index site element τ A B}
      (hbase : VarHasType Γ base (.array site element) A) (hindex : HasType Γ index .int B)
      (htype : Denotes site.blocks element τ) :
      VarHasType Γ (.subscript node base index) τ (A ++ B)

inductive ExpsHaveTypes : Context → List Exp → List SiteType → Annotations → Prop
  | nil {Γ} : ExpsHaveTypes Γ [] [] []
  | cons {Γ e es τ types A B} (h : HasType Γ e τ A) (hrest : ExpsHaveTypes Γ es types B) :
      ExpsHaveTypes Γ (e :: es) (τ :: types) (A ++ B)

inductive FieldsHaveTypes : Context → List FieldExp → List (String × SiteType) → Annotations → Prop
  | nil {Γ} : FieldsHaveTypes Γ [] [] []
  | cons {Γ span name value fields τ typed A B} (h : HasType Γ value τ A)
      (hrest : FieldsHaveTypes Γ fields typed B) :
      FieldsHaveTypes Γ (.mk span name value :: fields) ((name, τ) :: typed) (A ++ B)

inductive DecsHaveTypes : Context → List Dec → Context → Annotations → Prop
  | nil {Γ} : DecsHaveTypes Γ [] Γ []
  | var {Γ Γ' node name typeName init decs τ σ A B} (hinit : HasType Γ init σ A)
      (htype : DeclaredType Γ.blocks typeName σ τ)
      (hrest : DecsHaveTypes (Γ.withVar name τ) decs Γ' B) :
      DecsHaveTypes Γ (.var node name typeName init :: decs) Γ' (A ++ B)
  | type {Γ Γ' node name definition decs A} (hrest : DecsHaveTypes Γ decs Γ' A) :
      DecsHaveTypes Γ (.type node name definition :: decs) Γ' A
  | function {Γ Γ' node name params result body decs types τ σ A B}
      (hparams : ParamsDenote Γ.blocks params types) (hdistinct : (params.map Field.name).Nodup)
      (hresult : ResultDenotes Γ.blocks result τ)
      (hbody : HasType (Γ.withParams params types) body σ A) (hfit : Compatible τ σ)
      (hrest : DecsHaveTypes Γ decs Γ' B) :
      DecsHaveTypes Γ (.function node name params result body :: decs) Γ' (A ++ B)

end

end TigerLang
