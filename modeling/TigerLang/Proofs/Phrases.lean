import Mathlib.Logic.Relation
import TigerLang.Proofs.NodeIds

/-! A program as a tree of phrases: everything in it that has a place in the source. -/

namespace TigerLang

inductive Phrase
  | exp (e : Exp)
  | var (v : Var)
  | dec (d : Dec)
  | field (f : Field)
  | fieldExp (f : FieldExp)
  | typeExp (t : TypeExp)

@[simp] def Exp.children : Exp → List Phrase
  | .nil _ | .int _ _ | .str _ _ | .breakLoop _ => []
  | .var _ target => [.var target]
  | .call _ _ args => args.map .exp
  | .binary _ _ left right => [.exp left, .exp right]
  | .record _ _ fields => fields.map .fieldExp
  | .seq _ exps => exps.map .exp
  | .assign _ target value => [.var target, .exp value]
  | .ifThen _ test body => [.exp test, .exp body]
  | .ifThenElse _ test yes no => [.exp test, .exp yes, .exp no]
  | .whileDo _ test body => [.exp test, .exp body]
  | .forTo _ _ lo hi body => [.exp lo, .exp hi, .exp body]
  | .letIn _ decs body => decs.map .dec ++ [.exp body]
  | .array _ _ size init => [.exp size, .exp init]

@[simp] def Var.children : Var → List Phrase
  | .simple _ _ => []
  | .field _ base _ => [.var base]
  | .subscript _ base index => [.var base, .exp index]

@[simp] def Dec.children : Dec → List Phrase
  | .var _ _ _ init => [.exp init]
  | .type _ _ definition => [.typeExp definition]
  | .function _ _ params _ body => params.map .field ++ [.exp body]

@[simp] def TypeExp.children : TypeExp → List Phrase
  | .record _ fields => fields.map .field
  | _ => []

namespace Phrase

def span : Phrase → Span
  | exp e => e.node.span
  | var v => v.node.span
  | dec d => d.node.span
  | field f => f.node.span
  | fieldExp f => f.span
  | typeExp t => t.span

def id? : Phrase → Option Nat
  | exp e => some e.node.id
  | var v => some v.node.id
  | dec d => some d.node.id
  | field f => some f.node.id
  | fieldExp _ | typeExp _ => none

@[simp] def children : Phrase → List Phrase
  | exp e => e.children
  | var v => v.children
  | dec d => d.children
  | field _ => []
  | fieldExp f => [.exp f.value]
  | typeExp t => t.children

def ids : Phrase → List Nat
  | exp e => e.ids
  | var v => v.ids
  | dec d => d.ids
  | field f => [f.node.id]
  | fieldExp f => f.ids
  | typeExp t => t.ids

theorem ids_eq (p : Phrase) : p.ids = p.id?.toList ++ p.children.flatMap ids := by
  have hfields : ∀ fields : List Field,
      (fields.map field).flatMap ids = fields.map (·.node.id) := by
    intro fields
    rw [List.flatMap_map, List.map_eq_flatMap]
    rfl
  match p with
  | exp e =>
    cases e <;> simp [ids, id?, Exp.node, Exp.idsList_eq_flatMap,
      FieldExp.idsList_eq_flatMap, Dec.idsList_eq_flatMap, List.flatMap_map]
  | var v => cases v <;> simp [ids, id?, Var.node]
  | dec d =>
    cases d with
    | var node name typeName init =>
      simp [ids, id?, Dec.ids, Dec.idsList, Dec.node]
    | type node name definition =>
      simp [ids, id?, Dec.ids, Dec.idsList, Dec.node]
    | function node name params result body =>
      simp [ids, id?, Dec.ids, Dec.idsList, Dec.node, hfields]
  | field f => rfl
  | fieldExp f =>
    obtain ⟨span, name, value⟩ := f
    simp [ids, id?, FieldExp.ids, FieldExp.value]
  | typeExp t =>
    cases t with
    | record span fields => exact (hfields fields).symm
    | name span target => rfl
    | array span element => rfl

def Inside : Phrase → Phrase → Prop := Relation.ReflTransGen fun p q => p ∈ q.children

theorem forall_inside_iff {P : Phrase → Prop} {p : Phrase} :
    (∀ q, q.Inside p → P q) ↔ P p ∧ ∀ c ∈ p.children, ∀ q, q.Inside c → P q := by
  constructor
  · intro h
    exact ⟨h p .refl, fun c hc q hq => h q (hq.tail hc)⟩
  · rintro ⟨hp, hchildren⟩ q hq
    rcases Relation.ReflTransGen.cases_tail hq with rfl | ⟨c, hqc, hc⟩
    · exact hp
    · exact hchildren c hc q hqc

end Phrase

end TigerLang
