import Mathlib.Algebra.Order.Group.Multiset
import Mathlib.Tactic.Abel
import TigerLang.Proofs.Surroundings
import TigerLang.Tree.Decs

/-! What there is to be written down about a program: types for its expressions and variables, slots
for what it binds, and functions. This is read off the tree, with what each of them stands in. -/

namespace TigerLang

/-- What a slot is for: the variable of a loop, a parameter of a function, or a variable that is
declared with or without a type and has the value of an expression. -/
inductive Role
  | loop
  | param (function place : Nat)
  | declared (typeName : Option String) (init : Nat)

/-- One thing to be written down, by the number of its node. A function is also to be closed, and so
is the main one. -/
inductive Mark
  | exp (id : Nat)
  | var (id : Nat)
  | slot (around : List Surrounding) (id : Nat) (role : Role)
  | routine (around : List Surrounding) (id : Nat) (name : String)
  | close (around : List Surrounding)

def Mark.isRoutine : Mark → Bool
  | .routine _ _ _ => true
  | _ => false

def Mark.entry? : Mark → Option (Nat ⊕ Nat)
  | .slot _ id _ => some (.inl id)
  | .routine _ id _ => some (.inr id)
  | _ => none

def Exp.Declares (e : Exp) (around : List Surrounding) (d : Dec) : Prop :=
  ∃ outer node decs body before after, ⟨outer, .exp (.letIn node decs body)⟩ ∈ e.places [] ∧
    decs = before ++ d :: after ∧ around = .block decs before :: outer

inductive Exp.Binds (e : Exp) : List Surrounding → Nat → Role → Prop
  | loop {around node name lo hi body}
      (hplace : ⟨around, .exp (.forTo node name lo hi body)⟩ ∈ e.places []) :
      Binds e around node.id .loop
  | declared {around node name typeName init}
      (hdec : e.Declares around (.var node name typeName init)) :
      Binds e around node.id (.declared typeName init.node.id)
  | param {around node name params result body i param}
      (hdec : e.Declares around (.function node name params result body))
      (hparam : params[i]? = some param) :
      Binds e (.functionBody node params :: around) param.node.id (.param node.id i)

namespace Dec

def headingMarks (around : List Surrounding) : Dec → List Mark
  | .function node name _ _ _ => [.routine around node.id name]
  | _ => []

def bodyMarks (around : List Surrounding) : Dec → List Mark
  | .var node _ typeName init => [.slot around node.id (.declared typeName init.node.id)]
  | .type _ _ _ => []
  | .function node _ params _ _ =>
    .close (.functionBody node params :: around) :: params.mapIdx fun i param =>
      .slot (.functionBody node params :: around) param.node.id (.param node.id i)

/-- Collects something from declarations that come after those in `before` and belong to the block
`all`, each in its place. -/
def collect (marks : List Surrounding → Dec → List Mark) (around : List Surrounding)
    (all before : List Dec) : List Dec → List Mark
  | [] => []
  | d :: decs =>
    marks (.block all before :: around) d ++ collect marks around all (before ++ [d]) decs

theorem mem_collect {marks : List Surrounding → Dec → List Mark} {around : List Surrounding}
    {all before decs : List Dec} {mark : Mark} :
    mark ∈ collect marks around all before decs ↔ ∃ first d rest, decs = first ++ d :: rest ∧
      mark ∈ marks (.block all (before ++ first) :: around) d := by
  induction decs generalizing before with
  | nil => simp [collect]
  | cons d decs ih =>
    rw [collect, List.mem_append, ih]
    constructor
    · rintro (hmem | ⟨first, other, rest, rfl, hmem⟩)
      · exact ⟨[], d, decs, rfl, by simpa using hmem⟩
      · exact ⟨d :: first, other, rest, rfl, by simpa using hmem⟩
    · rintro ⟨first, other, rest, heq, hmem⟩
      cases first with
      | nil =>
        obtain ⟨rfl, rfl⟩ := List.cons.inj heq
        exact .inl (by simpa using hmem)
      | cons _ first =>
        obtain ⟨rfl, rfl⟩ := List.cons.inj heq
        exact .inr ⟨first, other, rest, rfl, by simpa using hmem⟩

end Dec

def blockMarks (around : List Surrounding) (decs : List Dec) : List Mark :=
  Dec.collect Dec.headingMarks around decs [] decs ++ Dec.collect Dec.bodyMarks around decs [] decs

def Place.marks : Place → List Mark
  | ⟨around, .exp e⟩ => .exp e.node.id :: match e with
    | .forTo node _ _ _ _ => [.slot around node.id .loop]
    | .letIn _ decs _ => blockMarks around decs
    | _ => []
  | ⟨_, .var v⟩ => [.var v.node.id]

/-- The order does not matter, and the checker has its own. -/
def total (places : List Place) : Multiset Mark := ↑(places.flatMap Place.marks)

@[simp] theorem total_nil : total [] = 0 := rfl

@[simp] theorem total_cons (place : Place) (places : List Place) :
    total (place :: places) = ↑place.marks + total places := rfl

@[simp] theorem total_append (places places' : List Place) :
    total (places ++ places') = total places + total places' := by
  simp [total]

theorem mem_total {places : List Place} {mark : Mark} :
    mark ∈ total places ↔ ∃ place ∈ places, mark ∈ place.marks := by
  simp [total]

theorem mem_blockMarks {around : List Surrounding} {decs : List Dec} {mark : Mark} :
    mark ∈ blockMarks around decs ↔ ∃ before d after, decs = before ++ d :: after ∧
      (mark ∈ d.headingMarks (.block decs before :: around) ∨
        mark ∈ d.bodyMarks (.block decs before :: around)) := by
  simp only [blockMarks, List.mem_append, Dec.mem_collect, List.nil_append]
  constructor
  · rintro (⟨before, d, after, heq, hmem⟩ | ⟨before, d, after, heq, hmem⟩)
    · exact ⟨before, d, after, heq, .inl hmem⟩
    · exact ⟨before, d, after, heq, .inr hmem⟩
  · rintro ⟨before, d, after, heq, hmem | hmem⟩
    · exact .inl ⟨before, d, after, heq, hmem⟩
    · exact .inr ⟨before, d, after, heq, hmem⟩

theorem not_mem_blockMarks {around : List Surrounding} {decs : List Dec} (id : Nat) :
    .exp id ∉ blockMarks around decs ∧ .var id ∉ blockMarks around decs := by
  constructor <;>
  · rw [mem_blockMarks]
    rintro ⟨before, d, after, -, hmem | hmem⟩ <;>
    cases d <;> simp [Dec.headingMarks, Dec.bodyMarks, List.mem_mapIdx] at hmem

theorem exp_mem_total {places : List Place} {id : Nat} :
    .exp id ∈ total places ↔ ∃ around e, ⟨around, .exp e⟩ ∈ places ∧ e.node.id = id := by
  rw [mem_total]
  constructor
  · rintro ⟨⟨around, e | v⟩, hplace, hmem⟩
    · rcases List.mem_cons.mp hmem with heq | hmem
      · exact ⟨around, e, hplace, (Mark.exp.inj heq).symm⟩
      · split at hmem
        · simp at hmem
        · exact absurd hmem (not_mem_blockMarks id).1
        · simp at hmem
    · simp [Place.marks] at hmem
  · rintro ⟨around, e, hplace, rfl⟩
    exact ⟨_, hplace, List.mem_cons_self⟩

theorem var_mem_total {places : List Place} {id : Nat} :
    .var id ∈ total places ↔ ∃ around v, ⟨around, .var v⟩ ∈ places ∧ v.node.id = id := by
  rw [mem_total]
  constructor
  · rintro ⟨⟨around, e | v⟩, hplace, hmem⟩
    · rcases List.mem_cons.mp hmem with heq | hmem
      · cases heq
      · split at hmem
        · simp at hmem
        · exact absurd hmem (not_mem_blockMarks id).2
        · simp at hmem
    · exact ⟨around, v, hplace, (Mark.var.inj (List.mem_singleton.mp hmem)).symm⟩
  · rintro ⟨around, v, hplace, rfl⟩
    exact ⟨_, hplace, List.mem_cons_self⟩

section tree
variable {e : Exp} {around : List Surrounding} {id : Nat}

theorem Exp.Declares.mem_total {d : Dec} (h : e.Declares around d) {mark : Mark}
    (hmark : mark ∈ d.headingMarks around ∨ mark ∈ d.bodyMarks around) :
    mark ∈ total (e.places []) := by
  obtain ⟨outer, node, decs, body, before, after, hplace, heq, rfl⟩ := h
  refine TigerLang.mem_total.mpr ⟨_, hplace, List.mem_cons_of_mem _ ?_⟩
  exact mem_blockMarks.mpr ⟨before, d, after, heq, hmark⟩

theorem slot_mem_total {role : Role} :
    .slot around id role ∈ total (e.places []) ↔ e.Binds around id role := by
  constructor
  · intro hmem
    obtain ⟨⟨outer, f | v⟩, hplace, hmem⟩ := mem_total.mp hmem
    · rcases List.mem_cons.mp hmem with heq | hmem
      · cases heq
      · split at hmem
        · obtain ⟨rfl, rfl, rfl⟩ := Mark.slot.inj (List.mem_singleton.mp hmem)
          exact .loop hplace
        · obtain ⟨before, d, after, heq, hmem | hmem⟩ := mem_blockMarks.mp hmem
          · cases d <;> simp [Dec.headingMarks] at hmem
          · have hdec : e.Declares _ d := ⟨_, _, _, _, before, after, hplace, heq, rfl⟩
            cases d with
            | var node name typeName init =>
              obtain ⟨rfl, rfl, rfl⟩ := Mark.slot.inj (List.mem_singleton.mp hmem)
              exact .declared hdec
            | type node name definition => simp [Dec.bodyMarks] at hmem
            | function node name params result body =>
              rcases List.mem_cons.mp hmem with heq | hmem
              · cases heq
              · obtain ⟨i, hi, heq⟩ := List.mem_mapIdx.mp hmem
                obtain ⟨rfl, rfl, rfl⟩ := Mark.slot.inj heq
                exact .param hdec (List.getElem?_eq_getElem hi)
        · simp at hmem
    · simp [Place.marks] at hmem
  · intro h
    cases h with
    | loop hplace => exact mem_total.mpr ⟨_, hplace, by simp [Place.marks]⟩
    | declared hdec => exact hdec.mem_total (.inr (by simp [Dec.bodyMarks]))
    | @param _ node name params result body i param hdec hparam =>
      obtain ⟨hi, rfl⟩ := List.getElem?_eq_some_iff.mp hparam
      exact hdec.mem_total (.inr (List.mem_cons_of_mem _ (List.mem_mapIdx.mpr ⟨i, hi, rfl⟩)))

theorem routine_mem_total {name : String} :
    .routine around id name ∈ total (e.places []) ↔ ∃ node params result body,
      e.Declares around (.function node name params result body) ∧ node.id = id := by
  constructor
  · intro hmem
    obtain ⟨⟨outer, f | v⟩, hplace, hmem⟩ := mem_total.mp hmem
    · rcases List.mem_cons.mp hmem with heq | hmem
      · cases heq
      · split at hmem
        · simp at hmem
        · obtain ⟨before, d, after, heq, hmem | hmem⟩ := mem_blockMarks.mp hmem
          · have hdec : e.Declares _ d := ⟨_, _, _, _, before, after, hplace, heq, rfl⟩
            cases d with
            | function node name params result body =>
              obtain ⟨rfl, rfl, rfl⟩ := Mark.routine.inj (List.mem_singleton.mp hmem)
              exact ⟨node, params, result, body, hdec, rfl⟩
            | var node name typeName init => simp [Dec.headingMarks] at hmem
            | type node name definition => simp [Dec.headingMarks] at hmem
          · cases d <;> simp [Dec.bodyMarks, List.mem_mapIdx] at hmem
        · simp at hmem
    · simp [Place.marks] at hmem
  · rintro ⟨node, params, result, body, hdec, rfl⟩
    exact hdec.mem_total (.inl (by simp [Dec.headingMarks]))

end tree

theorem countP_blockMarks (around : List Surrounding) (decs : List Dec) :
    (blockMarks around decs).countP Mark.isRoutine = decs.countP Dec.isFunction := by
  have hheadings : ∀ all before decs, (Dec.collect Dec.headingMarks around all before decs).countP
      Mark.isRoutine = decs.countP Dec.isFunction := by
    intro all before decs
    induction decs generalizing before with
    | nil => rfl
    | cons d decs ih =>
      rw [Dec.collect, List.countP_append, ih, List.countP_cons]
      cases d <;> simp [Dec.headingMarks, Mark.isRoutine, Dec.isFunction, Nat.add_comm]
  have hbodies : (Dec.collect Dec.bodyMarks around decs [] decs).countP Mark.isRoutine = 0 := by
    rw [List.countP_eq_zero]
    intro mark hmark
    obtain ⟨before, d, after, -, hmem⟩ := Dec.mem_collect.mp hmark
    cases d with
    | var node name typeName init =>
      obtain rfl := List.mem_singleton.mp hmem
      simp [Mark.isRoutine]
    | type node name definition => simp [Dec.bodyMarks] at hmem
    | function node name params result body =>
      rcases List.mem_cons.mp hmem with rfl | hmem
      · simp [Mark.isRoutine]
      · obtain ⟨i, hi, rfl⟩ := List.mem_mapIdx.mp hmem
        simp [Mark.isRoutine]
  rw [blockMarks, List.countP_append, hheadings, hbodies, Nat.add_zero]

def routineCount (places : List Place) : Nat := (places.flatMap Place.marks).countP Mark.isRoutine

theorem routineCount_append (places places' : List Place) :
    routineCount (places ++ places') = routineCount places + routineCount places' := by
  simp [routineCount]

theorem routineCount_cons (place : Place) (places : List Place) :
    routineCount (place :: places) = place.marks.countP Mark.isRoutine + routineCount places := by
  simp [routineCount]

mutual

theorem Exp.routineCount_places : ∀ (e : Exp) (around : List Surrounding),
    routineCount (e.places around) = e.allDecs.countP Dec.isFunction
  | .nil _, _ | .int _ _, _ | .str _ _, _ | .breakLoop _, _ => rfl
  | .var _ target, around => by
    simp [Exp.places, Exp.allDecs, routineCount_cons, Place.marks, Mark.isRoutine,
      target.routineCount_places]
  | .call _ _ args, around => by
    simp [Exp.places, Exp.allDecs, routineCount_cons, Place.marks, Mark.isRoutine,
      Exp.routineCount_placesList]
  | .binary _ _ left right, around => by
    simp [Exp.places, Exp.allDecs, routineCount_cons, routineCount_append, Place.marks,
      Mark.isRoutine, left.routineCount_places, right.routineCount_places]
  | .record _ _ fields, around => by
    simp [Exp.places, Exp.allDecs, routineCount_cons, Place.marks, Mark.isRoutine,
      FieldExp.routineCount_placesList]
  | .seq _ exps, around => by
    simp [Exp.places, Exp.allDecs, routineCount_cons, Place.marks, Mark.isRoutine,
      Exp.routineCount_placesList]
  | .assign _ target value, around => by
    simp [Exp.places, Exp.allDecs, routineCount_cons, routineCount_append, Place.marks,
      Mark.isRoutine, target.routineCount_places, value.routineCount_places]
  | .ifThen _ test body, around => by
    simp [Exp.places, Exp.allDecs, routineCount_cons, routineCount_append, Place.marks,
      Mark.isRoutine, test.routineCount_places, body.routineCount_places]
  | .ifThenElse _ test yes no, around => by
    simp [Exp.places, Exp.allDecs, routineCount_cons, routineCount_append, Place.marks,
      Mark.isRoutine, test.routineCount_places, yes.routineCount_places, no.routineCount_places]
  | .whileDo _ test body, around => by
    simp [Exp.places, Exp.allDecs, routineCount_cons, routineCount_append, Place.marks,
      Mark.isRoutine, test.routineCount_places, body.routineCount_places]
  | .forTo _ _ lo hi body, around => by
    simp [Exp.places, Exp.allDecs, routineCount_cons, routineCount_append, Place.marks,
      Mark.isRoutine, lo.routineCount_places, hi.routineCount_places, body.routineCount_places]
  | .letIn _ decs body, around => by
    have hdecs := Dec.routineCount_placesList decs around decs []
    simp only [Exp.places, Exp.allDecs, routineCount_cons, routineCount_append, Place.marks,
      List.countP_cons, List.countP_append, Mark.isRoutine, countP_blockMarks,
      body.routineCount_places]
    simp only [Bool.false_eq_true, if_false]
    omega
  | .array _ _ size init, around => by
    simp [Exp.places, Exp.allDecs, routineCount_cons, routineCount_append, Place.marks,
      Mark.isRoutine, size.routineCount_places, init.routineCount_places]

theorem Var.routineCount_places : ∀ (v : Var) (around : List Surrounding),
    routineCount (v.places around) = v.allDecs.countP Dec.isFunction
  | .simple _ _, _ => rfl
  | .field _ base _, around => by
    simp [Var.places, Var.allDecs, routineCount_cons, Place.marks, Mark.isRoutine,
      base.routineCount_places]
  | .subscript _ base index, around => by
    simp [Var.places, Var.allDecs, routineCount_cons, routineCount_append, Place.marks,
      Mark.isRoutine, base.routineCount_places, index.routineCount_places]

theorem Exp.routineCount_placesList : ∀ (es : List Exp) (around : List Surrounding),
    routineCount (Exp.placesList around es) = (Exp.allDecsList es).countP Dec.isFunction
  | [], _ => rfl
  | e :: es, around => by
    rw [Exp.placesList, Exp.allDecsList, routineCount_append, List.countP_append,
      e.routineCount_places, Exp.routineCount_placesList es]

theorem FieldExp.routineCount_placesList : ∀ (fields : List FieldExp) (around : List Surrounding),
    routineCount (FieldExp.placesList around fields) =
      (FieldExp.allDecsList fields).countP Dec.isFunction
  | [], _ => rfl
  | .mk _ _ value :: fields, around => by
    rw [FieldExp.placesList, FieldExp.allDecsList, routineCount_append, List.countP_append,
      value.routineCount_places, FieldExp.routineCount_placesList fields]

theorem Dec.routineCount_placesList : ∀ (decs : List Dec) (around : List Surrounding)
    (all before : List Dec), decs.countP Dec.isFunction +
      routineCount (Dec.placesList around all before decs) =
        (Dec.allDecsList decs).countP Dec.isFunction
  | [], _, _, _ => rfl
  | .var node name typeName init :: decs, around, all, before => by
    have hrest := Dec.routineCount_placesList decs around all
      (before ++ [.var node name typeName init])
    simp only [Dec.placesList, Dec.allDecsList, routineCount_append, List.countP_append,
      List.countP_cons, List.cons_append, Dec.isFunction, init.routineCount_places]
    omega
  | .type node name definition :: decs, around, all, before => by
    have hrest :=
      Dec.routineCount_placesList decs around all (before ++ [.type node name definition])
    simp only [Dec.placesList, Dec.allDecsList, List.countP_cons, Dec.isFunction]
    omega
  | .function node name params result body :: decs, around, all, before => by
    have hrest := Dec.routineCount_placesList decs around all
      (before ++ [.function node name params result body])
    simp only [Dec.placesList, Dec.allDecsList, routineCount_append, List.countP_append,
      List.countP_cons, List.cons_append, Dec.isFunction, body.routineCount_places]
    omega

end

end TigerLang
