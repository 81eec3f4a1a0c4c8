import TigerLang.Proofs.Effects
import TigerLang.Proofs.TypeSystem

/-! How the types of the rules are represented while a program is checked. A declared type has a
number in the registry, and the entry there says what its declaration says. -/

namespace TigerLang

namespace SiteType

def id? : SiteType → Option Nat
  | .record site _ | .array site _ => some site.node.id
  | _ => none

def isRecord : SiteType → Bool
  | .record _ _ => true
  | _ => false

end SiteType

theorem compatible_iff {τ σ : SiteType} : Compatible τ σ ↔
    (τ = σ ∧ τ ≠ .nil) ∨ (τ = .nil ∧ σ.isRecord = true) ∨ (τ.isRecord = true ∧ σ = .nil) := by
  constructor
  · rintro (h | _ | _)
    · exact .inl ⟨rfl, h⟩
    · exact .inr (.inl ⟨rfl, rfl⟩)
    · exact .inr (.inr ⟨rfl, rfl⟩)
  · rintro (⟨rfl, hne⟩ | ⟨rfl, hσ⟩ | ⟨hτ, rfl⟩)
    · exact .same hne
    · cases σ with
      | record site fields => exact .nilRecord
      | _ => cases hσ
    · cases τ with
      | record site fields => exact .recordNil
      | _ => cases hτ

theorem compatible_base {τ σ : SiteType} (hτ : τ = .int ∨ τ = .void) : Compatible τ σ ↔ σ = τ := by
  constructor
  · rintro (h | _ | _)
    · rfl
    · simp at hτ
    · simp at hτ
  · rintro rfl
    exact .same (by rintro rfl; simp at hτ)

theorem Ty.accepts_iff {t u : Ty} (ht : t ≠ .error) (hu : u ≠ .error) : t.accepts u = true ↔
    (t = u ∧ t ≠ .nil) ∨ (t = .nil ∧ u.isRecord = true) ∨ (t.isRecord = true ∧ u = .nil) := by
  cases t <;> cases u <;> simp_all [Ty.accepts, Ty.isRecord]

abbrev Rep : Type := SiteType → Ty → Prop

namespace Rep

/-- More types are represented, all of them made by declarations with the numbers `ids`. -/
structure Extends (rep rep' : Rep) (ids : List Nat) : Prop where
  le : ∀ {τ ty}, rep τ ty → rep' τ ty
  new : ∀ {τ ty}, rep' τ ty → rep τ ty ∨ ∃ id ∈ ids, τ.id? = some id

def Apart (rep : Rep) (ids : List Nat) : Prop :=
  ∀ ⦃τ ty id⦄, rep τ ty → τ.id? = some id → id ∉ ids

variable {rep rep' rep'' : Rep} {ids ids' : List Nat}

theorem Extends.refl (rep : Rep) (ids : List Nat) : rep.Extends rep ids := ⟨id, .inl⟩

theorem Extends.mono (h : rep.Extends rep' ids) (hsub : ids ⊆ ids') : rep.Extends rep' ids' where
  le := h.le
  new hty := (h.new hty).imp_right fun ⟨id, hid, heq⟩ => ⟨id, hsub hid, heq⟩

theorem Extends.trans (h : rep.Extends rep' ids) (h' : rep'.Extends rep'' ids) :
    rep.Extends rep'' ids where
  le hty := h'.le (h.le hty)
  new hty := by
    rcases h'.new hty with hold | hnew
    · exact h.new hold
    · exact .inr hnew

theorem Apart.subset (h : rep.Apart ids) (hsub : ids' ⊆ ids) : rep.Apart ids' :=
  fun _ _ _ hty hid hmem => h hty hid (hsub hmem)

theorem Apart.extends (h : rep.Apart ids') (hrep : rep.Extends rep' ids)
    (hdisjoint : ∀ id ∈ ids, id ∉ ids') : rep'.Apart ids' := by
  intro τ ty id hty hid
  rcases hrep.new hty with hold | ⟨other, hother, heq⟩
  · exact h hold hid
  · rw [hid] at heq
    exact Option.some.inj heq ▸ hdisjoint other hother

end Rep

def FieldsRepresented (rep : Rep) (blocks : List (List Dec)) :
    List Field → List (String × Ty) → Prop :=
  List.Forall₂ fun field typed => typed.1 = field.name ∧
    ∃ τ, Denotes blocks field.typeName τ ∧ rep τ typed.2

/-- Each type is represented by one and stands for one, and the registry has what is declared. -/
structure Faithful (registry : Registry) (rep : Rep) : Prop where
  int : rep .int .int
  string : rep .string .string
  void : rep .void .void
  nil : rep .nil .nil
  functional : ∀ {τ ty ty'}, rep τ ty → rep τ ty' → ty = ty'
  injective : ∀ {τ τ' ty}, rep τ ty → rep τ' ty → τ = τ'
  record : ∀ {site fields ty}, rep (.record site fields) ty → ∃ k typed, ty = .record k ∧
    registry.records[k]? = some ⟨site.name, typed, true⟩ ∧
    FieldsRepresented rep site.blocks fields typed
  array : ∀ {site element ty}, rep (.array site element) ty → ∃ k τ elementType, ty = .array k ∧
    registry.arrays[k]? = some ⟨site.name, elementType⟩ ∧ Denotes site.blocks element τ ∧
    rep τ elementType

namespace Faithful
variable {registry : Registry} {rep : Rep} {τ σ : SiteType} {t u : Ty}

theorem eq_iff (h : Faithful registry rep) (ht : rep τ t) (hu : rep σ u) : τ = σ ↔ t = u := by
  constructor
  · rintro rfl
    exact h.functional ht hu
  · rintro rfl
    exact h.injective ht hu

theorem isRecord (h : Faithful registry rep) (ht : rep τ t) : t.isRecord = τ.isRecord := by
  cases τ with
  | int => rw [h.functional ht h.int]; rfl
  | string => rw [h.functional ht h.string]; rfl
  | void => rw [h.functional ht h.void]; rfl
  | nil => rw [h.functional ht h.nil]; rfl
  | record site fields =>
    obtain ⟨k, typed, rfl, -⟩ := h.record ht
    rfl
  | array site element =>
    obtain ⟨k, σ, elementType, rfl, -⟩ := h.array ht
    rfl

theorem ne_error (h : Faithful registry rep) (ht : rep τ t) : t ≠ .error := by
  rintro rfl
  cases τ with
  | int => cases h.functional ht h.int
  | string => cases h.functional ht h.string
  | void => cases h.functional ht h.void
  | nil => cases h.functional ht h.nil
  | record site fields =>
    obtain ⟨k, typed, heq, -⟩ := h.record ht
    cases heq
  | array site element =>
    obtain ⟨k, σ, elementType, heq, -⟩ := h.array ht
    cases heq

theorem accepts_iff (h : Faithful registry rep) (ht : rep τ t) (hu : rep σ u) :
    t.accepts u = true ↔ Compatible τ σ := by
  rw [Ty.accepts_iff (h.ne_error ht) (h.ne_error hu), compatible_iff, h.isRecord ht, h.isRecord hu,
    ne_eq, ne_eq, ← h.eq_iff ht hu, ← h.eq_iff ht h.nil, ← h.eq_iff hu h.nil]

theorem exists_record (h : Faithful registry rep) {k : Nat} (ht : rep τ (.record k)) :
    ∃ site fields, τ = .record site fields := by
  have hkind := h.isRecord ht
  cases τ with
  | record site fields => exact ⟨site, fields, rfl⟩
  | _ => cases hkind

theorem exists_array (h : Faithful registry rep) {k : Nat} (ht : rep τ (.array k)) :
    ∃ site element, τ = .array site element := by
  cases τ with
  | array site element => exact ⟨site, element, rfl⟩
  | int => cases h.functional ht h.int
  | string => cases h.functional ht h.string
  | void => cases h.functional ht h.void
  | nil => cases h.functional ht h.nil
  | record site fields =>
    obtain ⟨k, typed, heq, -⟩ := h.record ht
    cases heq

theorem fields_ne_error (h : Faithful registry rep) {blocks : List (List Dec)} {fields : List Field}
    {typed : List (String × Ty)} (hfields : FieldsRepresented rep blocks fields typed) :
    ∀ field ∈ typed, field.2 ≠ .error := by
  induction hfields with
  | nil => simp
  | cons hfield _ ih =>
    obtain ⟨-, τ, -, hrep⟩ := hfield
    exact List.forall_mem_cons.mpr ⟨h.ne_error hrep, ih⟩

end Faithful

theorem denotes_nil {name : String} {τ : SiteType} :
    Denotes [] name τ ↔ name = "int" ∧ τ = .int ∨ name = "string" ∧ τ = .string := by
  constructor
  · rintro (_ | _)
    · exact .inl ⟨rfl, rfl⟩
    · exact .inr ⟨rfl, rfl⟩
  · rintro (⟨rfl, rfl⟩ | ⟨rfl, rfl⟩)
    · exact .int
    · exact .string

theorem denotes_cons {decs : List Dec} {blocks : List (List Dec)} {name : String} {τ : SiteType} :
    Denotes (decs :: blocks) name τ ↔ match typeDec? decs name with
      | none => Denotes blocks name τ
      | some (_, .name _ target) => Denotes (decs :: blocks) target τ
      | some (node, .array _ element) => τ = .array ⟨node, name, decs :: blocks⟩ element ∧
          ∃ σ, Denotes (decs :: blocks) element σ
      | some (node, .record _ fields) => τ = .record ⟨node, name, decs :: blocks⟩ fields := by
  constructor
  · intro h
    cases h with
    | outer hname h => rwa [hname]
    | name hname h => rwa [hname]
    | array hname h =>
      rw [hname]
      exact ⟨rfl, _, h⟩
    | record hname => rw [hname]
  · intro h
    split at h
    · next hname => exact .outer hname h
    · next hname => exact .name hname h
    · next hname =>
      obtain ⟨rfl, σ, hσ⟩ := h
      exact .array hname hσ
    · next hname =>
      subst h
      exact .record hname

theorem Denotes.unique {blocks : List (List Dec)} {name : String} {τ σ : SiteType}
    (h : Denotes blocks name τ) (h' : Denotes blocks name σ) : τ = σ := by
  induction h generalizing σ with
  | int => simpa [denotes_nil, eq_comm] using h'
  | string => simpa [denotes_nil, eq_comm] using h'
  | outer hname _ ih =>
    rw [denotes_cons, hname] at h'
    exact ih h'
  | name hname _ ih =>
    rw [denotes_cons, hname] at h'
    exact ih h'
  | array hname _ _ =>
    rw [denotes_cons, hname] at h'
    exact h'.1.symm
  | record hname =>
    rw [denotes_cons, hname] at h'
    exact h'.symm

structure TypesMatch (blocks : List (List Dec)) (rep : Rep) (types : Scopes TypeBinding) :
    Prop where
  found : ∀ {name τ}, Denotes blocks name τ → ∃ ty, typeOf? types name = some ty ∧ rep τ ty
  denoted : ∀ {name ty}, typeOf? types name = some ty → ∃ τ, Denotes blocks name τ

theorem TypesMatch.mono {blocks : List (List Dec)} {rep rep' : Rep} {types : Scopes TypeBinding}
    (h : TypesMatch blocks rep types) (hle : ∀ {τ ty}, rep τ ty → rep' τ ty) :
    TypesMatch blocks rep' types where
  found hτ := by
    obtain ⟨ty, hty, hrep⟩ := h.found hτ
    exact ⟨ty, hty, hle hrep⟩
  denoted := h.denoted

structure Clean (s : Checker) : Prop where
  exps : ∀ {id : Nat} {ty}, s.facts.expTypes[id]? = some ty → ty ≠ .error
  vars : ∀ {id : Nat} {ty}, s.facts.varTypes[id]? = some ty → ty ≠ .error
  routines : ∀ info ∈ s.facts.functions, info.result ≠ .error ∧ ∀ ty ∈ info.params, ty ≠ .error
  slots : ∀ f ∈ s.frames.frames, ∀ ty ∈ f.slots, ty ≠ .error
  records : ∀ record ∈ s.registry.records, ∀ field ∈ record.fields, field.2 ≠ .error
  arrays : ∀ array ∈ s.registry.arrays, array.element ≠ .error

def VarMatches (rep : Rep) (var : TypedVar) (entry : VarBinding) : Prop :=
  rep var.type entry.ty ∧ entry.readOnly = var.readOnly

def FunMatches (rep : Rep) (signature : Signature) (entry : FunBinding) : Prop :=
  List.Forall₂ rep signature.params entry.params ∧ rep signature.result entry.result

structure Sane (rep : Rep) (s : Checker) : Prop where
  faithful : Faithful s.registry rep
  clean : Clean s

/-- The names that are known in a state are those of a context. -/
structure Models (Γ : Context) (rep : Rep) (s : Checker) : Prop where
  resolved : AllResolved s.types
  types : TypesMatch Γ.blocks rep s.types
  vars : ∀ name, Option.Rel (VarMatches rep) (Γ.vars.value? name) (s.vars.find? name)
  functions : ∀ name, Option.Rel (FunMatches rep) (Γ.functions.value? name) (s.functions.find? name)
  loop : Γ.inLoop = true ↔ 0 < s.loopDepth
  sane : Sane rep s

theorem rel_imp {α β : Type} {R R' : α → β → Prop} {a : Option α} {b : Option β}
    (h : Option.Rel R a b) (himp : ∀ {a b}, R a b → R' a b) : Option.Rel R' a b := by
  cases h with
  | none => exact .none
  | some h => exact .some (himp h)

theorem exists_of_rel_some {α β : Type} {R : α → β → Prop} {a : α} {b : Option β}
    (h : Option.Rel R (some a) b) : ∃ b', b = some b' ∧ R a b' := by
  cases h with
  | some h => exact ⟨_, rfl, h⟩

theorem eq_none_of_rel {α β : Type} {R : α → β → Prop} {b : Option β} (h : Option.Rel R none b) :
    b = none := by
  cases h
  rfl

theorem Models.keeps {Γ : Context} {rep rep' : Rep} {s s' : Checker} (h : Models Γ rep s)
    (henv : s.SameEnv s') (hle : ∀ {τ ty}, rep τ ty → rep' τ ty) (hsane : Sane rep' s') :
    Models Γ rep' s' where
  resolved := henv.types.symm ▸ h.resolved
  types := henv.types.symm ▸ h.types.mono hle
  vars name := by
    rw [henv.vars]
    exact rel_imp (h.vars name) fun hvar => ⟨hle hvar.1, hvar.2⟩
  functions name := by
    rw [henv.functions]
    exact rel_imp (h.functions name) fun hfun => ⟨hfun.1.imp fun _ _ => hle, hle hfun.2⟩
  loop := by rw [henv.loopDepth, h.loop]
  sane := hsane

def Noted (rep : Rep) (A : Annotations) (s : Checker) : Prop :=
  ∀ entry ∈ A, ∃ ty, s.facts.expTypes[entry.1]? = some ty ∧ rep entry.2 ty

structure Link where
  holds : Rep → Prop
  mono : ∀ {rep rep' : Rep}, (∀ τ ty, rep τ ty → rep' τ ty) → holds rep → holds rep'

namespace Link

def nothing : Link := ⟨fun _ => True, fun _ => id⟩

def both (a b : Link) : Link :=
  ⟨fun rep => a.holds rep ∧ b.holds rep, fun hle h => ⟨a.mono hle h.1, b.mono hle h.2⟩⟩

def type (τ : SiteType) (ty : Ty) : Link := ⟨fun rep => rep τ ty, fun hle => hle τ ty⟩

def all (types : List SiteType) (tys : List Ty) : Link :=
  ⟨fun rep => List.Forall₂ rep types tys, fun hle h => h.imp hle⟩

def types (types : List SiteType) (typed : List (Ty × Position)) : Link :=
  ⟨fun rep => List.Forall₂ (fun τ (t : Ty × Position) => rep τ t.1) types typed,
    fun hle h => h.imp fun _ _ => hle _ _⟩

def given (typed : List (String × SiteType)) (fields : List CheckM.GivenField) : Link :=
  ⟨fun rep => List.Forall₂ (fun p field => field.name = p.1 ∧ rep p.2 field.ty) typed fields,
    fun hle h => h.imp fun _ _ hfield => ⟨hfield.1, hle _ _ hfield.2⟩⟩

end Link

end TigerLang
