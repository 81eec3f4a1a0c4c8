import Mathlib.Logic.Relation
import TigerLang.Proofs.Tables
import TigerLang.Typing.Checker

/-! The type names of a block as a graph. A declaration that names another type, or an array of one,
has one name to go on to; a record has none, since its fields may refer back to it. -/

namespace TigerLang

def firstNamed {α : Type} (name : α → String) : List String → List α → List α
  | _, [] => []
  | seen, a :: rest =>
    if name a ∈ seen then firstNamed name seen rest
    else a :: firstNamed name (name a :: seen) rest

section firstNamed
variable {α : Type} {name : α → String}

theorem mem_firstNamed {seen : List String} {items : List α} {a : α}
    (h : a ∈ firstNamed name seen items) : a ∈ items ∧ name a ∉ seen := by
  induction items generalizing seen with
  | nil => simp [firstNamed] at h
  | cons b rest ih =>
    rw [firstNamed] at h
    split at h
    · have hrest := ih h
      exact ⟨List.mem_cons_of_mem _ hrest.1, hrest.2⟩
    · next hb =>
      rcases List.mem_cons.mp h with rfl | htail
      · exact ⟨List.mem_cons_self, hb⟩
      · have hrest := ih htail
        exact ⟨List.mem_cons_of_mem _ hrest.1, fun hs => hrest.2 (List.mem_cons_of_mem _ hs)⟩

theorem firstNamed_nodup (seen : List String) (items : List α) :
    ((firstNamed name seen items).map name).Nodup := by
  induction items generalizing seen with
  | nil => simp [firstNamed]
  | cons b rest ih =>
    rw [firstNamed]
    split
    · exact ih seen
    · rw [List.map_cons, List.nodup_cons]
      refine ⟨fun hmem => ?_, ih _⟩
      obtain ⟨a, ha, heq⟩ := List.mem_map.mp hmem
      exact (mem_firstNamed ha).2 (heq ▸ List.mem_cons_self)

theorem firstNamed_eq_self {seen : List String} {items : List α} (hnodup : (items.map name).Nodup)
    (hnew : ∀ a ∈ items, name a ∉ seen) : firstNamed name seen items = items := by
  induction items generalizing seen with
  | nil => rfl
  | cons b rest ih =>
    rw [List.map_cons, List.nodup_cons] at hnodup
    rw [firstNamed, if_neg (hnew b List.mem_cons_self), ih hnodup.2]
    intro a ha hmem
    rcases List.mem_cons.mp hmem with heq | hseen
    · exact hnodup.1 (List.mem_map.mpr ⟨a, ha, heq⟩)
    · exact hnew a (List.mem_cons_of_mem _ ha) hseen

end firstNamed

def typeEntries (decs : List Dec) : Scope TypeBinding :=
  decs.filterMap fun
    | d@(.type _ name definition) => some (name, ⟨some definition, none, d.start⟩)
    | _ => none

def declaredTypes (decs : List Dec) : Scope TypeBinding :=
  firstNamed Prod.fst [] (typeEntries decs)

structure TypeBlock where
  outer : Scopes TypeBinding
  declared : Scope TypeBinding

namespace TypeBlock
variable (b : TypeBlock)

def definition? (name : String) : Option TypeExp :=
  (b.declared.value? name).bind TypeBinding.definition

def next? (name : String) : Option String :=
  match b.definition? name with
  | some (.name _ target) => some target
  | some (.array _ element) => some element
  | _ => none

def Leads : String → String → Prop := Relation.ReflTransGen fun m n => b.next? m = some n

/-- The name is not declared in the block, and is unknown outside too or stands for no type there. -/
def Dead (name : String) : Prop :=
  b.declared.value? name = none ∧
    (b.outer.find? name = none ∨
      ∃ binding, b.outer.find? name = some binding ∧ binding.resolved = some .error)

/-- Going on from the name ends where nothing is known, or does not end. -/
def Lost (name : String) : Prop :=
  (∃ m, b.Leads name m ∧ b.Dead m) ∨ ∀ m, b.Leads name m → (b.next? m).isSome

/-- Going on from the name ends at a record, or at a type that is known outside. -/
inductive Grounded : String → Prop
  | outer {name : String} {binding : TypeBinding} {ty : Ty}
      (hname : b.declared.value? name = none) (hfind : b.outer.find? name = some binding)
      (hty : binding.resolved = some ty) (hne : ty ≠ .error) : Grounded name
  | record {name : String} {span : Span} {fields : List Field}
      (h : b.definition? name = some (.record span fields)) : Grounded name
  | step {name target : String} (h : b.next? name = some target)
      (htarget : Grounded target) : Grounded name

structure Unresolved : Prop where
  nodup : (b.declared.map Prod.fst).Nodup
  open_ : ∀ {name binding}, b.declared.value? name = some binding →
    binding.resolved = none ∧ binding.definition.isSome
  outer : ∀ {name binding}, b.outer.find? name = some binding → binding.resolved.isSome

variable {b}

theorem declared_of_next? {name target : String} (h : b.next? name = some target) :
    ∃ definition, b.definition? name = some definition ∧ definition.isRecord = false := by
  unfold next? at h
  split at h
  · next heq => exact ⟨_, heq, rfl⟩
  · next heq => exact ⟨_, heq, rfl⟩
  · simp at h

theorem mem_names_of_definition? {name : String} {definition : TypeExp}
    (h : b.definition? name = some definition) : name ∈ b.declared.map Prod.fst := by
  obtain ⟨binding, hvalue, -⟩ := Option.bind_eq_some_iff.mp h
  exact List.mem_map.mpr ⟨(name, binding), Scope.mem_of_value? hvalue, rfl⟩

theorem Grounded.of_leads {name m : String} (h : b.Leads name m) (hm : b.Grounded m) :
    b.Grounded name := by
  induction h using Relation.ReflTransGen.head_induction_on with
  | refl => exact hm
  | head hstep _ ih => exact .step hstep ih

theorem Grounded.not_dead {name : String} (h : b.Grounded name) : ¬ b.Dead name := by
  rintro ⟨hname, hdead⟩
  cases h with
  | outer _ hfind hty hne =>
    rcases hdead with hnone | ⟨binding, hbinding, herror⟩
    · simp [hnone] at hfind
    · rw [hfind] at hbinding
      cases hbinding
      rw [hty] at herror
      exact hne (Option.some.inj herror)
  | record hrecord => simp [definition?, hname] at hrecord
  | step hnext _ =>
    obtain ⟨definition, hdefinition, -⟩ := declared_of_next? hnext
    simp [definition?, hname] at hdefinition

theorem Grounded.leads {name m : String} (h : b.Leads name m) (hname : b.Grounded name) :
    b.Grounded m := by
  induction h with
  | refl => exact hname
  | tail _ hstep ih =>
    cases ih with
    | outer hnone _ _ _ =>
      obtain ⟨definition, hdefinition, -⟩ := declared_of_next? hstep
      simp [definition?, hnone] at hdefinition
    | record hrecord => simp [next?, hrecord] at hstep
    | step hnext htarget =>
      rw [hstep] at hnext
      cases hnext
      exact htarget

theorem Grounded.ends {name : String} (h : b.Grounded name) :
    ∃ m, b.Leads name m ∧ b.next? m = none := by
  induction h with
  | @outer name _ _ hnone _ _ _ => exact ⟨name, .refl, by simp [next?, definition?, hnone]⟩
  | @record name _ _ hrecord => exact ⟨name, .refl, by simp [next?, hrecord]⟩
  | step hnext _ ih =>
    obtain ⟨m, hm, hend⟩ := ih
    exact ⟨m, .head hnext hm, hend⟩

theorem grounded_or_dead {name : String} (hb : b.Unresolved) (h : b.next? name = none) :
    b.Grounded name ∨ b.Dead name := by
  cases hvalue : b.declared.value? name with
  | none =>
    cases hfind : b.outer.find? name with
    | none => exact .inr ⟨hvalue, .inl hfind⟩
    | some binding =>
      obtain ⟨ty, hty⟩ := Option.isSome_iff_exists.mp (hb.outer hfind)
      by_cases hne : ty = .error
      · exact .inr ⟨hvalue, .inr ⟨binding, hfind, hne ▸ hty⟩⟩
      · exact .inl (.outer hvalue hfind hty hne)
  | some binding =>
    obtain ⟨definition, hdefinition⟩ := Option.isSome_iff_exists.mp (hb.open_ hvalue).2
    have hd : b.definition? name = some definition := by simp [definition?, hvalue, hdefinition]
    cases definition with
    | name span target => simp [next?, hd] at h
    | array span element => simp [next?, hd] at h
    | record span fields => exact .inl (.record hd)

theorem lost_iff_not_grounded {name : String} (hb : b.Unresolved) :
    b.Lost name ↔ ¬ b.Grounded name := by
  constructor
  · rintro (⟨m, hm, hdead⟩ | hloop) hname
    · exact (Grounded.leads hm hname).not_dead hdead
    · obtain ⟨m, hm, hend⟩ := hname.ends
      simpa [hend] using hloop m hm
  · intro hname
    by_cases hend : ∃ m, b.Leads name m ∧ b.next? m = none
    · obtain ⟨m, hm, hnone⟩ := hend
      rcases grounded_or_dead hb hnone with hground | hdead
      · exact absurd (Grounded.of_leads hm hground) hname
      · exact .inl ⟨m, hm, hdead⟩
    · exact .inr fun m hm => Option.isSome_iff_ne_none.mpr fun hnone => hend ⟨m, hm, hnone⟩

end TypeBlock

end TigerLang
