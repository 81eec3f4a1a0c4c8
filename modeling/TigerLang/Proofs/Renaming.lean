import Mathlib.Logic.Function.Basic
import TigerLang.Typing.Checker

/-! Programs with other names. Variables, functions and types are renamed each on their own, and the
tables, types and frames of a checker go along. -/

namespace TigerLang

/-- New names for the variables, functions and types of a program. Different names stay different,
and what the language provides keeps its name. -/
structure Renaming where
  vars : String → String
  functions : String → String
  types : String → String
  vars_injective : Function.Injective vars
  functions_injective : Function.Injective functions
  types_injective : Function.Injective types
  library : ∀ f ∈ LibraryFunction.all, functions f.name = f.name
  int : types "int" = "int"
  string : types "string" = "string"

/-! Trees -/

def Field.retyped (r : Renaming) (field : Field) : Field :=
  { field with typeName := r.types field.typeName }

@[simp] theorem Field.name_retyped (r : Renaming) (field : Field) :
    (field.retyped r).name = field.name := rfl

def Field.renamed (r : Renaming) (param : Field) : Field :=
  { param with name := r.vars param.name, typeName := r.types param.typeName }

def TypeExp.rename (r : Renaming) : TypeExp → TypeExp
  | .name span target => .name span (r.types target)
  | .record span fields => .record span (fields.map (Field.retyped r))
  | .array span element => .array span (r.types element)

mutual

def Exp.rename (r : Renaming) : Exp → Exp
  | .nil node => .nil node
  | .int node value => .int node value
  | .str node value => .str node value
  | .var node target => .var node (target.rename r)
  | .call node function args => .call node (r.functions function) (Exp.renameList r args)
  | .binary node op left right => .binary node op (left.rename r) (right.rename r)
  | .record node typeName fields =>
    .record node (r.types typeName) (FieldExp.renameList r fields)
  | .seq node exps => .seq node (Exp.renameList r exps)
  | .assign node target value => .assign node (target.rename r) (value.rename r)
  | .ifThen node test body => .ifThen node (test.rename r) (body.rename r)
  | .ifThenElse node test yes no =>
    .ifThenElse node (test.rename r) (yes.rename r) (no.rename r)
  | .whileDo node test body => .whileDo node (test.rename r) (body.rename r)
  | .forTo node name lo hi body =>
    .forTo node (r.vars name) (lo.rename r) (hi.rename r) (body.rename r)
  | .breakLoop node => .breakLoop node
  | .letIn node decs body => .letIn node (Dec.renameList r decs) (body.rename r)
  | .array node typeName size init =>
    .array node (r.types typeName) (size.rename r) (init.rename r)

def Var.rename (r : Renaming) : Var → Var
  | .simple node name => .simple node (r.vars name)
  | .field node base name => .field node (base.rename r) name
  | .subscript node base index => .subscript node (base.rename r) (index.rename r)

def Exp.renameList (r : Renaming) : List Exp → List Exp
  | [] => []
  | e :: es => e.rename r :: Exp.renameList r es

def FieldExp.renameList (r : Renaming) : List FieldExp → List FieldExp
  | [] => []
  | .mk span name value :: fields => .mk span name (value.rename r) :: FieldExp.renameList r fields

def Dec.renameList (r : Renaming) : List Dec → List Dec
  | [] => []
  | .var node name typeName init :: decs =>
    .var node (r.vars name) (typeName.map r.types) (init.rename r) :: Dec.renameList r decs
  | .type node name definition :: decs =>
    .type node (r.types name) (definition.rename r) :: Dec.renameList r decs
  | .function node name params result body :: decs =>
    .function node (r.functions name) (params.map (Field.renamed r)) (result.map r.types)
      (body.rename r) :: Dec.renameList r decs

end

@[simp] theorem Exp.node_rename (r : Renaming) (e : Exp) : (e.rename r).node = e.node := by
  cases e <;> rw [Exp.rename] <;> rfl

@[simp] theorem Exp.start_rename (r : Renaming) (e : Exp) : (e.rename r).start = e.start := by
  rw [Exp.start, Exp.start, Exp.node_rename]

@[simp] theorem TypeExp.isRecord_rename (r : Renaming) (t : TypeExp) :
    (t.rename r).isRecord = t.isRecord := by
  cases t <;> rfl

/-! Tables -/

def Scope.rename {α β : Type} (ρ : String → String) (f : α → β) (scope : Scope α) : Scope β :=
  scope.map fun entry => (ρ entry.1, f entry.2)

namespace Scope
variable {α β : Type} {ρ : String → String}

theorem rename_eq_self {scope : Scope α} (h : ∀ entry ∈ scope, ρ entry.1 = entry.1) :
    rename ρ id scope = scope := by
  have hentries : rename ρ id scope = scope.map id :=
    List.map_congr_left fun entry hentry => Prod.ext (h entry hentry) rfl
  rw [hentries, List.map_id]

variable (hρ : Function.Injective ρ) (f : α → β)
include hρ

theorem value?_rename (scope : Scope α) (name : String) :
    value? (rename ρ f scope) (ρ name) = (value? scope name).map f := by
  induction scope with
  | nil => rfl
  | cons entry rest ih =>
    change value? ((ρ entry.1, f entry.2) :: rename ρ f rest) (ρ name) = _
    rw [value?, List.lookup_cons, value?, List.lookup_cons]
    -- An entry with another name keeps another one, since the renaming is injective.
    by_cases heq : name = entry.1
    · simp [heq]
    · rw [beq_eq_false_iff_ne.mpr heq, beq_eq_false_iff_ne.mpr fun h => heq (hρ h)]
      exact ih

theorem bind_rename (scope : Scope α) (name : String) (value : α) :
    rename ρ f (bind name value scope) = bind (ρ name) (f value) (rename ρ f scope) := by
  induction scope with
  | nil => rfl
  | cons entry rest ih =>
    obtain ⟨other, old⟩ := entry
    change rename ρ f (bind name value ((other, old) :: rest)) =
      bind (ρ name) (f value) ((ρ other, f old) :: rename ρ f rest)
    rw [bind, bind]
    by_cases heq : other = name
    · rw [if_pos heq, if_pos (congrArg ρ heq)]
      rfl
    · rw [if_neg heq, if_neg fun h => heq (hρ h), ← ih]
      rfl

end Scope

def Scopes.rename {α β : Type} (ρ : String → String) (f : α → β) (t : Scopes α) : Scopes β :=
  ⟨t.inner.map (Scope.rename ρ f), Scope.rename ρ f t.root⟩

namespace Scopes
variable {α β : Type} {ρ : String → String} (f : α → β) (t : Scopes α)

theorem scopes_rename : (t.rename ρ f).scopes = t.scopes.map (Scope.rename ρ f) := by
  simp [scopes, rename]

@[simp] theorem size_rename : (t.rename ρ f).size = t.size := by
  rw [size, scopes_rename, size]
  simp [List.length_flatten, Function.comp_def, Scope.rename]

theorem leave_rename : (t.rename ρ f).leave = t.leave.rename ρ f := by
  simp [leave, rename]

variable (hρ : Function.Injective ρ)
include hρ

theorem find?_rename (name : String) : (t.rename ρ f).find? (ρ name) = (t.find? name).map f := by
  unfold find?
  rw [scopes_rename]
  induction t.scopes with
  | nil => rfl
  | cons scope outer ih =>
    rw [List.map_cons, List.findSome?_cons, List.findSome?_cons, Scope.value?_rename hρ, ih]
    cases scope.value? name <;> rfl

theorem hasHere_rename (name : String) : (t.rename ρ f).hasHere (ρ name) = t.hasHere name := by
  have hcurrent : (t.rename ρ f).current = Scope.rename ρ f t.current := by
    obtain ⟨_ | ⟨scope, outer⟩, root⟩ := t <;> rfl
  rw [hasHere, here?, hcurrent, Scope.value?_rename hρ, Option.isSome_map]
  rfl

theorem bind_rename (name : String) (value : α) :
    (t.rename ρ f).bind (ρ name) (f value) = (t.bind name value).rename ρ f := by
  obtain ⟨_ | ⟨scope, outer⟩, root⟩ := t
  · exact congrArg (Scopes.mk []) (Scope.bind_rename hρ f root name value).symm
  · exact congrArg (fun first => Scopes.mk (first :: outer.map (Scope.rename ρ f)) _)
      (Scope.bind_rename hρ f scope name value).symm

theorem changeScopes_rename {g : α → α} {g' : β → β} (hg : ∀ a, f (g a) = g' (f a))
    (name : String) (scopes : List (Scope α)) :
    changeScopes (ρ name) g' (scopes.map (Scope.rename ρ f)) =
      (changeScopes name g scopes).map (List.map (Scope.rename ρ f)) := by
  induction scopes with
  | nil => rfl
  | cons scope outer ih =>
    rw [List.map_cons, changeScopes, changeScopes, Scope.value?_rename hρ, ih]
    cases scope.value? name with
    | none => cases changeScopes name g outer <;> rfl
    | some value =>
      simp only [Option.map_some, List.map_cons, Scope.bind_rename hρ, hg]

theorem change_rename {g : α → α} {g' : β → β} (hg : ∀ a, f (g a) = g' (f a)) (name : String) :
    (t.rename ρ f).change (ρ name) g' = (t.change name g).rename ρ f := by
  have hinner : changeScopes (ρ name) g' (t.rename ρ f).inner =
      (changeScopes name g t.inner).map (List.map (Scope.rename ρ f)) :=
    changeScopes_rename f hρ hg name t.inner
  have hroot : (t.rename ρ f).root.value? (ρ name) = (t.root.value? name).map f :=
    Scope.value?_rename hρ f t.root name
  unfold change
  rw [hinner, hroot]
  cases changeScopes name g t.inner with
  | some inner => rfl
  | none =>
    cases t.root.value? name with
    | none => rfl
    | some value =>
      simp only [Option.map_none, Option.map_some, rename, Scope.bind_rename hρ, hg]

end Scopes

def TypeBinding.rename (r : Renaming) (entry : TypeBinding) : TypeBinding :=
  { entry with definition := entry.definition.map (TypeExp.rename r) }

/-! Types and frames -/

theorem map_modify {α β : Type} {g : α → β} {f : α → α} {f' : β → β} (entries : Array α) (i : Nat)
    (h : ∀ a, g (f a) = f' (g a)) : (entries.modify i f).map g = (entries.map g).modify i f' := by
  apply Array.ext_getElem?
  intro j
  rw [Array.getElem?_map, Array.getElem?_modify, Array.getElem?_modify, Array.getElem?_map]
  split
  · cases entries[j]? with
    | none => rfl
    | some a => exact congrArg some (h a)
  · rfl

def RecordType.rename (ρ : String → String) (record : RecordType) : RecordType :=
  { record with name := ρ record.name }

def ArrayType.rename (ρ : String → String) (array : ArrayType) : ArrayType :=
  { array with name := ρ array.name }

def Registry.rename (ρ : String → String) (registry : Registry) : Registry :=
  ⟨registry.records.map (RecordType.rename ρ), registry.arrays.map (ArrayType.rename ρ)⟩

namespace Registry
variable (ρ : String → String) (registry : Registry)

theorem records_rename (id : Nat) : (registry.rename ρ).records[id]? =
    registry.records[id]?.map (RecordType.rename ρ) := by
  simp [rename]

theorem element?_rename (ty : Ty) : (registry.rename ρ).element? ty = registry.element? ty := by
  cases ty <;> simp [element?, rename, Function.comp_def, ArrayType.rename]

theorem field?_rename (ty : Ty) (name : String) :
    (registry.rename ρ).field? ty name = registry.field? ty name := by
  cases ty with
  | record id =>
    rw [field?, field?, records_rename]
    cases registry.records[id]? <;> rfl
  | _ => rfl

theorem addRecord_rename (name : String) : (registry.rename ρ).addRecord (ρ name) =
    ((registry.addRecord name).1, (registry.addRecord name).2.rename ρ) := by
  simp [addRecord, rename, RecordType.rename]

theorem addArray_rename (name : String) (element : Ty) :
    (registry.rename ρ).addArray (ρ name) element =
      ((registry.addArray name element).1, (registry.addArray name element).2.rename ρ) := by
  simp [addArray, rename, ArrayType.rename]

theorem fillRecord_rename (id : Nat) (fields : List (String × Ty)) :
    (registry.rename ρ).fillRecord id fields = (registry.fillRecord id fields).rename ρ := by
  unfold fillRecord rename
  rw [map_modify registry.records id]
  exact fun _ => rfl

end Registry

def Frame.unnamed (f : Frame) : Frame := { f with name := "" }

def Frames.unnamed (l : Frames) : Frames := { l with frames := l.frames.map Frame.unnamed }

namespace Frames
variable (l : Frames)

@[simp] theorem current_unnamed : l.unnamed.current = l.current := rfl

theorem getElem?_unnamed (i : Nat) : l.unnamed.frames[i]? = l.frames[i]?.map Frame.unnamed := by
  simp [unnamed]

@[simp] theorem level_unnamed : l.unnamed.level = l.level := by
  rw [level, level, current_unnamed, getElem?_unnamed]
  cases l.frames[l.current]? <;> rfl

theorem declare_unnamed (name : String) :
    l.unnamed.declare "" = ((l.declare name).1, (l.declare name).2.unnamed) := by
  unfold declare
  rw [level_unnamed, current_unnamed]
  simp [unnamed, Frame.unnamed]

theorem finalize_unnamed (frame : Nat) : l.unnamed.finalize frame = (l.finalize frame).unnamed := by
  unfold finalize unnamed
  rw [map_modify l.frames frame]
  exact fun _ => rfl

theorem leave_unnamed : l.unnamed.leave = l.leave.unnamed := by
  obtain ⟨frames, _ | ⟨frame, outer⟩⟩ := l
  · rfl
  · exact finalize_unnamed ⟨frames, outer⟩ frame

theorem reserve_unnamed (ty : Ty) :
    l.unnamed.reserve ty = ((l.reserve ty).1, (l.reserve ty).2.unnamed) := by
  have hsize : (l.unnamed.frames[l.current]?.map fun f => f.slots.size) =
      l.frames[l.current]?.map fun f => f.slots.size := by
    rw [getElem?_unnamed]
    cases l.frames[l.current]? <;> rfl
  have hframes : (l.unnamed.reserve ty).2 = (l.reserve ty).2.unnamed := by
    unfold reserve unnamed
    rw [map_modify l.frames l.current]
    · rfl
    · exact fun _ => rfl
  have hslot : (l.unnamed.reserve ty).1 = (l.reserve ty).1 := by
    simp only [reserve, level_unnamed, current_unnamed, hsize]
  rw [← hframes, ← hslot]

end Frames

def Routine.unnamed (routine : Routine) : Routine := { routine with name := "", symbol := "" }

def Facts.unnamed (a : Facts) : Facts := { a with functions := a.functions.map Routine.unnamed }

theorem Facts.unnamed_push (a : Facts) (routine : Routine) (routineOf : NodeMap Nat) :
    Facts.unnamed { a with functions := a.functions.push routine, routineOf } =
      { a.unnamed with functions := a.unnamed.functions.push routine.unnamed, routineOf } := by
  simp [unnamed]

theorem Facts.routine?_unnamed (a : Facts) (id : Nat) :
    a.unnamed.routine? id = (a.routine? id).map Routine.unnamed := by
  unfold routine? unnamed
  cases a.routineOf[id]? <;> simp

def Diagnostic.brief (d : Diagnostic) : String × Position := (d.cause.title, d.position)

end TigerLang
