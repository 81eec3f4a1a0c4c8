import TigerLang.Proofs.NodeIds

/-! One expression of a program in the place of another, and what a program has to be like for it
to be told what stands there. -/

namespace TigerLang

mutual

@[simp] def Exp.inside : Exp → List Exp
  | .nil _ | .int _ _ | .str _ _ | .breakLoop _ => []
  | .var _ target => target.inside
  | .call _ _ args => Exp.insideList args
  | .binary _ _ left right => (left :: left.inside) ++ (right :: right.inside)
  | .record _ _ fields => FieldExp.insideList fields
  | .seq _ exps => Exp.insideList exps
  | .assign _ target value => target.inside ++ (value :: value.inside)
  | .ifThen _ test body => (test :: test.inside) ++ (body :: body.inside)
  | .ifThenElse _ test yes no =>
    (test :: test.inside) ++ ((yes :: yes.inside) ++ (no :: no.inside))
  | .whileDo _ test body => (test :: test.inside) ++ (body :: body.inside)
  | .forTo _ _ lo hi body => (lo :: lo.inside) ++ ((hi :: hi.inside) ++ (body :: body.inside))
  | .letIn _ decs body => Dec.insideList decs ++ (body :: body.inside)
  | .array _ _ size init => (size :: size.inside) ++ (init :: init.inside)

@[simp] def Var.inside : Var → List Exp
  | .simple _ _ => []
  | .field _ base _ => base.inside
  | .subscript _ base index => base.inside ++ (index :: index.inside)

@[simp] def Exp.insideList : List Exp → List Exp
  | [] => []
  | e :: es => (e :: e.inside) ++ Exp.insideList es

@[simp] def FieldExp.insideList : List FieldExp → List Exp
  | [] => []
  | .mk _ _ value :: fields => (value :: value.inside) ++ FieldExp.insideList fields

@[simp] def Dec.insideList : List Dec → List Exp
  | [] => []
  | .var _ _ _ init :: decs => (init :: init.inside) ++ Dec.insideList decs
  | .type _ _ _ :: decs => Dec.insideList decs
  | .function _ _ _ _ body :: decs => (body :: body.inside) ++ Dec.insideList decs

end

def Exp.subexps (e : Exp) : List Exp := e :: e.inside

def Node.put (node : Node) (id : Nat) (new e : Exp) : Exp := if node.id = id then new else e

mutual

def Exp.replace (id : Nat) (new : Exp) : Exp → Exp
  | .nil node => node.put id new (.nil node)
  | .int node value => node.put id new (.int node value)
  | .str node value => node.put id new (.str node value)
  | .var node target => node.put id new (.var node (Var.replace id new target))
  | .call node function args => node.put id new (.call node function (Exp.replaceList id new args))
  | .binary node op left right =>
    node.put id new (.binary node op (Exp.replace id new left) (Exp.replace id new right))
  | .record node typeName fields =>
    node.put id new (.record node typeName (FieldExp.replaceList id new fields))
  | .seq node exps => node.put id new (.seq node (Exp.replaceList id new exps))
  | .assign node target value =>
    node.put id new (.assign node (Var.replace id new target) (Exp.replace id new value))
  | .ifThen node test body =>
    node.put id new (.ifThen node (Exp.replace id new test) (Exp.replace id new body))
  | .ifThenElse node test yes no =>
    node.put id new
      (.ifThenElse node (Exp.replace id new test) (Exp.replace id new yes) (Exp.replace id new no))
  | .whileDo node test body =>
    node.put id new (.whileDo node (Exp.replace id new test) (Exp.replace id new body))
  | .forTo node name lo hi body =>
    node.put id new
      (.forTo node name (Exp.replace id new lo) (Exp.replace id new hi) (Exp.replace id new body))
  | .breakLoop node => node.put id new (.breakLoop node)
  | .letIn node decs body =>
    node.put id new (.letIn node (Dec.replaceList id new decs) (Exp.replace id new body))
  | .array node typeName size init =>
    node.put id new (.array node typeName (Exp.replace id new size) (Exp.replace id new init))
termination_by structural e => e

def Var.replace (id : Nat) (new : Exp) : Var → Var
  | .simple node name => .simple node name
  | .field node base name => .field node (Var.replace id new base) name
  | .subscript node base index =>
    .subscript node (Var.replace id new base) (Exp.replace id new index)
termination_by structural e => e

def Exp.replaceList (id : Nat) (new : Exp) : List Exp → List Exp
  | [] => []
  | e :: es => Exp.replace id new e :: Exp.replaceList id new es
termination_by structural e => e

def FieldExp.replaceList (id : Nat) (new : Exp) : List FieldExp → List FieldExp
  | [] => []
  | .mk span name value :: fields =>
    .mk span name (Exp.replace id new value) :: FieldExp.replaceList id new fields
termination_by structural e => e

def Dec.replaceList (id : Nat) (new : Exp) : List Dec → List Dec
  | [] => []
  | .var node name typeName init :: decs =>
    .var node name typeName (Exp.replace id new init) :: Dec.replaceList id new decs
  | .type node name definition :: decs =>
    .type node name definition :: Dec.replaceList id new decs
  | .function node name params result body :: decs =>
    .function node name params result (Exp.replace id new body) :: Dec.replaceList id new decs
termination_by structural e => e

end

def Exp.replaceInside (id : Nat) (new : Exp) : Exp → Exp
  | .nil node => .nil node
  | .int node value => .int node value
  | .str node value => .str node value
  | .var node target => .var node (Var.replace id new target)
  | .call node function args => .call node function (Exp.replaceList id new args)
  | .binary node op left right =>
    .binary node op (Exp.replace id new left) (Exp.replace id new right)
  | .record node typeName fields => .record node typeName (FieldExp.replaceList id new fields)
  | .seq node exps => .seq node (Exp.replaceList id new exps)
  | .assign node target value =>
    .assign node (Var.replace id new target) (Exp.replace id new value)
  | .ifThen node test body => .ifThen node (Exp.replace id new test) (Exp.replace id new body)
  | .ifThenElse node test yes no =>
    .ifThenElse node (Exp.replace id new test) (Exp.replace id new yes) (Exp.replace id new no)
  | .whileDo node test body => .whileDo node (Exp.replace id new test) (Exp.replace id new body)
  | .forTo node name lo hi body =>
    .forTo node name (Exp.replace id new lo) (Exp.replace id new hi) (Exp.replace id new body)
  | .breakLoop node => .breakLoop node
  | .letIn node decs body => .letIn node (Dec.replaceList id new decs) (Exp.replace id new body)
  | .array node typeName size init =>
    .array node typeName (Exp.replace id new size) (Exp.replace id new init)

theorem Exp.replace_eq_put (id : Nat) (new e : Exp) :
    Exp.replace id new e = e.node.put id new (Exp.replaceInside id new e) := by
  cases e <;> rfl

theorem Exp.replace_of_eq {id : Nat} {new e : Exp} (h : e.node.id = id) :
    Exp.replace id new e = new := by
  rw [Exp.replace_eq_put]
  exact if_pos h

theorem Exp.replace_of_ne {id : Nat} {new e : Exp} (h : e.node.id ≠ id) :
    Exp.replace id new e = Exp.replaceInside id new e := by
  rw [Exp.replace_eq_put]
  exact if_neg h

def Dec.boundNames : Dec → List String
  | .var _ name _ _ => [name]
  | .type _ _ _ => []
  | .function _ _ params _ _ => params.map Field.name

def Exp.boundNames : Exp → List String
  | .forTo _ name _ _ _ => [name]
  | .letIn _ decs _ => decs.flatMap Dec.boundNames
  | _ => []

mutual

/-- The last thing in the expression is a `nil` that may be its value. -/
def Exp.endsInNil : Exp → Bool
  | .nil _ => true
  | .seq _ exps => Exp.lastEndsInNil exps
  | .ifThenElse _ _ _ no => no.endsInNil
  | .letIn _ _ body => body.endsInNil
  | _ => false

def Exp.lastEndsInNil : List Exp → Bool
  | [] => false
  | [e] => e.endsInNil
  | _ :: e :: es => Exp.lastEndsInNil (e :: es)

end

/-- A conditional with a `nil` in its second branch, which has its type from the first alone. -/
def Exp.hasNilBranch : Exp → Bool
  | .ifThenElse _ _ _ no => no.endsInNil
  | _ => false

theorem Exp.ids_eq_cons (e : Exp) : e.ids = e.node.id :: e.ids.tail := by
  cases e <;> rfl

theorem Exp.id_mem_ids (e : Exp) : e.node.id ∈ e.ids := by
  rw [Exp.ids_eq_cons]
  exact List.mem_cons_self

theorem Exp.ids_subset_of_tail {x e : Exp} (htail : x ∈ e.inside → x.ids ⊆ e.ids.tail)
    (h : x ∈ e :: e.inside) : x.ids ⊆ e.ids := by
  rcases List.mem_cons.mp h with rfl | hinner
  · exact List.Subset.refl _
  · rw [e.ids_eq_cons]
    exact List.subset_cons_of_subset _ (htail hinner)

theorem ids_subset_append {x : Exp} {A B : List Exp} {IA IB : List Nat} (hA : x ∈ A → x.ids ⊆ IA)
    (hB : x ∈ B → x.ids ⊆ IB) (h : x ∈ A ++ B) : x.ids ⊆ IA ++ IB := by
  rcases List.mem_append.mp h with hleft | hright
  · exact List.subset_append_of_subset_left _ (hA hleft)
  · exact List.subset_append_of_subset_right _ (hB hright)

mutual

theorem Exp.ids_subset_tail {x : Exp} : ∀ e : Exp, x ∈ e.inside → x.ids ⊆ e.ids.tail
  | .nil _ | .int _ _ | .str _ _ | .breakLoop _ => fun h => by simp at h
  | .var _ target => Var.ids_subset target
  | .call _ _ args => Exp.ids_subset_list args
  | .binary _ _ left right => ids_subset_append
    (Exp.ids_subset_of_tail (Exp.ids_subset_tail left))
    (Exp.ids_subset_of_tail (Exp.ids_subset_tail right))
  | .record _ _ fields => FieldExp.ids_subset_list fields
  | .seq _ exps => Exp.ids_subset_list exps
  | .assign _ target value => ids_subset_append (Var.ids_subset target)
    (Exp.ids_subset_of_tail (Exp.ids_subset_tail value))
  | .ifThen _ test body => ids_subset_append
    (Exp.ids_subset_of_tail (Exp.ids_subset_tail test))
    (Exp.ids_subset_of_tail (Exp.ids_subset_tail body))
  | .ifThenElse _ test yes no => ids_subset_append
    (Exp.ids_subset_of_tail (Exp.ids_subset_tail test)) (ids_subset_append
      (Exp.ids_subset_of_tail (Exp.ids_subset_tail yes))
      (Exp.ids_subset_of_tail (Exp.ids_subset_tail no)))
  | .whileDo _ test body => ids_subset_append
    (Exp.ids_subset_of_tail (Exp.ids_subset_tail test))
    (Exp.ids_subset_of_tail (Exp.ids_subset_tail body))
  | .forTo _ _ lo hi body => ids_subset_append
    (Exp.ids_subset_of_tail (Exp.ids_subset_tail lo)) (ids_subset_append
      (Exp.ids_subset_of_tail (Exp.ids_subset_tail hi))
      (Exp.ids_subset_of_tail (Exp.ids_subset_tail body)))
  | .letIn _ decs body => ids_subset_append (Dec.ids_subset_list decs)
    (Exp.ids_subset_of_tail (Exp.ids_subset_tail body))
  | .array _ _ size init => ids_subset_append
    (Exp.ids_subset_of_tail (Exp.ids_subset_tail size))
    (Exp.ids_subset_of_tail (Exp.ids_subset_tail init))

theorem Var.ids_subset {x : Exp} : ∀ v : Var, x ∈ v.inside → x.ids ⊆ v.ids
  | .simple _ _ => fun h => by simp at h
  | .field _ base _ => fun h => List.subset_cons_of_subset _ (Var.ids_subset base h)
  | .subscript _ base index => fun h => List.subset_cons_of_subset _ (ids_subset_append
    (Var.ids_subset base) (Exp.ids_subset_of_tail (Exp.ids_subset_tail index)) h)

theorem Exp.ids_subset_list {x : Exp} :
    ∀ es : List Exp, x ∈ Exp.insideList es → x.ids ⊆ Exp.idsList es
  | [] => fun h => by simp at h
  | e :: es => ids_subset_append (Exp.ids_subset_of_tail (Exp.ids_subset_tail e))
    (Exp.ids_subset_list es)

theorem FieldExp.ids_subset_list {x : Exp} :
    ∀ fields : List FieldExp, x ∈ FieldExp.insideList fields → x.ids ⊆ FieldExp.idsList fields
  | [] => fun h => by simp at h
  | .mk _ _ value :: fields => ids_subset_append
    (Exp.ids_subset_of_tail (Exp.ids_subset_tail value)) (FieldExp.ids_subset_list fields)

theorem Dec.ids_subset_list {x : Exp} :
    ∀ decs : List Dec, x ∈ Dec.insideList decs → x.ids ⊆ Dec.idsList decs
  | [] => fun h => by simp at h
  | .var _ _ _ init :: decs => fun h => List.subset_cons_of_subset _ (ids_subset_append
    (Exp.ids_subset_of_tail (Exp.ids_subset_tail init)) (Dec.ids_subset_list decs) h)
  | .type _ _ _ :: decs => fun h => List.subset_cons_of_subset _
    (List.subset_append_of_subset_right _ (Dec.ids_subset_list decs h))
  | .function _ _ _ _ body :: decs => fun h => List.subset_cons_of_subset _
    (List.subset_append_of_subset_right _ (ids_subset_append
      (Exp.ids_subset_of_tail (Exp.ids_subset_tail body)) (Dec.ids_subset_list decs) h))

end

theorem Exp.ids_subset {x e : Exp} (h : x ∈ e.subexps) : x.ids ⊆ e.ids :=
  Exp.ids_subset_of_tail (Exp.ids_subset_tail e) h

end TigerLang
