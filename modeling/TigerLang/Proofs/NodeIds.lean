import TigerLang.Tree.Basic

/-! The numbers of the nodes of a tree. -/

namespace TigerLang

def TypeExp.ids : TypeExp → List Nat
  | .record _ fields => fields.map (·.node.id)
  | _ => []

mutual

@[simp] def Exp.ids : Exp → List Nat
  | .nil node | .int node _ | .str node _ | .breakLoop node => [node.id]
  | .var node target => node.id :: target.ids
  | .call node _ args => node.id :: Exp.idsList args
  | .binary node _ left right => node.id :: (left.ids ++ right.ids)
  | .record node _ fields => node.id :: FieldExp.idsList fields
  | .seq node exps => node.id :: Exp.idsList exps
  | .assign node target value => node.id :: (target.ids ++ value.ids)
  | .ifThen node test body => node.id :: (test.ids ++ body.ids)
  | .ifThenElse node test yes no => node.id :: (test.ids ++ (yes.ids ++ no.ids))
  | .whileDo node test body => node.id :: (test.ids ++ body.ids)
  | .forTo node _ lo hi body => node.id :: (lo.ids ++ (hi.ids ++ body.ids))
  | .letIn node decs body => node.id :: (Dec.idsList decs ++ body.ids)
  | .array node _ size init => node.id :: (size.ids ++ init.ids)

@[simp] def Var.ids : Var → List Nat
  | .simple node _ => [node.id]
  | .field node base _ => node.id :: base.ids
  | .subscript node base index => node.id :: (base.ids ++ index.ids)

def Exp.idsList : List Exp → List Nat
  | [] => []
  | e :: es => e.ids ++ Exp.idsList es

def FieldExp.idsList : List FieldExp → List Nat
  | [] => []
  | .mk _ _ value :: fields => value.ids ++ FieldExp.idsList fields

def Dec.idsList : List Dec → List Nat
  | [] => []
  | .var node _ _ init :: decs => node.id :: (init.ids ++ Dec.idsList decs)
  | .type node _ definition :: decs => node.id :: (definition.ids ++ Dec.idsList decs)
  | .function node _ params _ body :: decs =>
    node.id :: (params.map (·.node.id) ++ (body.ids ++ Dec.idsList decs))

end

theorem Exp.idsList_eq_flatMap (es : List Exp) : Exp.idsList es = es.flatMap Exp.ids := by
  induction es with
  | nil => rfl
  | cons e es ih => rw [idsList, ih, List.flatMap_cons]

def FieldExp.ids : FieldExp → List Nat
  | .mk _ _ value => value.ids

theorem FieldExp.idsList_eq_flatMap (fields : List FieldExp) :
    FieldExp.idsList fields = fields.flatMap FieldExp.ids := by
  induction fields with
  | nil => rfl
  | cons field fields ih =>
    cases field
    rw [idsList, ih, List.flatMap_cons, ids]

def Dec.ids (d : Dec) : List Nat := Dec.idsList [d]

theorem Dec.idsList_eq_flatMap (decs : List Dec) : Dec.idsList decs = decs.flatMap Dec.ids := by
  induction decs with
  | nil => rfl
  | cons d decs ih =>
    rw [List.flatMap_cons, ← ih]
    cases d <;> simp [ids, idsList]

def functionIds (decs : List Dec) : List Nat := (decs.filter Dec.isFunction).map (·.node.id)

@[simp] theorem functionIds_nil : functionIds [] = [] := rfl

theorem functionIds_append (decs decs' : List Dec) :
    functionIds (decs ++ decs') = functionIds decs ++ functionIds decs' := by
  simp [functionIds]

theorem functionIds_function (node : Node) (name : String) (params : List Field)
    (result : Option String) (body : Exp) (decs : List Dec) :
    functionIds (.function node name params result body :: decs) = node.id :: functionIds decs := rfl

/-- The numbers in declarations, apart from those of the functions themselves and of the fields. -/
def Dec.innerIds : List Dec → List Nat
  | [] => []
  | .var node _ _ init :: decs => node.id :: (init.ids ++ Dec.innerIds decs)
  | .type node _ _ :: decs => node.id :: Dec.innerIds decs
  | .function _ _ params _ body :: decs =>
    params.map (·.node.id) ++ (body.ids ++ Dec.innerIds decs)

theorem Dec.count_functionIds_innerIds (id : Nat) (decs : List Dec) :
    (functionIds decs).count id + (Dec.innerIds decs).count id ≤ (Dec.idsList decs).count id := by
  induction decs with
  | nil => exact Nat.le_refl _
  | cons d decs ih =>
    cases d with
    | var node name typeName init =>
      have hids : functionIds (.var node name typeName init :: decs) = functionIds decs := rfl
      simp only [hids, innerIds, idsList, List.count_cons, List.count_append]
      omega
    | type node name definition =>
      have hids : functionIds (.type node name definition :: decs) = functionIds decs := rfl
      simp only [hids, innerIds, idsList, List.count_cons, List.count_append]
      omega
    | function node name params result body =>
      simp only [functionIds_function, innerIds, idsList, List.count_cons, List.count_append]
      omega

theorem Dec.nodup_functionIds_innerIds {decs : List Dec} (h : (Dec.idsList decs).Nodup) :
    (functionIds decs ++ Dec.innerIds decs).Nodup := by
  rw [List.nodup_iff_count] at h ⊢
  intro id
  have hle := Dec.count_functionIds_innerIds id decs
  have hid := h id
  rw [List.count_append]
  omega

theorem Dec.innerIds_subset (decs : List Dec) : Dec.innerIds decs ⊆ Dec.idsList decs := by
  intro id hid
  have hle := Dec.count_functionIds_innerIds id decs
  have hpos := List.count_pos_iff.mpr hid
  exact List.count_pos_iff.mp (by omega)

theorem Dec.functionIds_subset (decs : List Dec) : functionIds decs ⊆ Dec.idsList decs := by
  intro id hid
  have hle := Dec.count_functionIds_innerIds id decs
  have hpos := List.count_pos_iff.mpr hid
  exact List.count_pos_iff.mp (by omega)

theorem Dec.map_node_subset (decs : List Dec) : decs.map (·.node.id) ⊆ Dec.idsList decs := by
  induction decs with
  | nil => exact List.Subset.refl _
  | cons d decs ih =>
    intro id hid
    rcases List.mem_cons.mp hid with rfl | hid
    · cases d <;> exact List.mem_cons_self
    · have hrest := ih hid
      cases d <;> simp [idsList, hrest]

end TigerLang
