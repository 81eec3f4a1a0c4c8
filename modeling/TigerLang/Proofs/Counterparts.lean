import Mathlib.Data.List.Forall2
import TigerLang.Proofs.Representation

/-! Two states of checking side by side. The second comes from a program with one expression
replaced, so some of its types are unknown, and its records and arrays may have other numbers. -/

namespace TigerLang

theorem eq_or_of_rel {α β : Type} {R : α → β → Prop} {a : Option α} {b : Option β}
    (h : Option.Rel R a b) :
    (a = none ∧ b = none) ∨ ∃ x y, a = some x ∧ b = some y ∧ R x y := by
  cases h with
  | none => exact .inl ⟨rfl, rfl⟩
  | some h => exact .inr ⟨_, _, rfl, rfl, h⟩

def Scope.Rel {α : Type} (R : α → α → Prop) (scope scope' : Scope α) : Prop :=
  List.Forall₂ (fun entry entry' => entry.1 = entry'.1 ∧ R entry.2 entry'.2) scope scope'

structure Scopes.Rel {α : Type} (R : α → α → Prop) (t t' : Scopes α) : Prop where
  inner : List.Forall₂ (Scope.Rel R) t.inner t'.inner
  root : Scope.Rel R t.root t'.root

namespace Scope.Rel
variable {α : Type} {R R' : α → α → Prop} {scope scope' : Scope α}

theorem imp (h : Rel R scope scope') (himp : ∀ a b, R a b → R' a b) : Rel R' scope scope' := by
  apply List.Forall₂.imp _ h
  intro entry entry' hentry
  exact ⟨hentry.1, himp _ _ hentry.2⟩

theorem value? (h : Rel R scope scope') (name : String) :
    Option.Rel R (scope.value? name) (scope'.value? name) := by
  induction h with
  | nil => exact .none
  | @cons entry entry' rest rest' hentry hrest ih =>
    obtain ⟨key, value⟩ := entry
    obtain ⟨key', value'⟩ := entry'
    obtain ⟨hkey, hvalue⟩ := hentry
    change key = key' at hkey
    subst hkey
    rw [value?_cons, value?_cons]
    split
    · exact .some hvalue
    · exact ih

theorem bind (h : Rel R scope scope') (name : String) {value value' : α} (hvalue : R value value') :
    Rel R (Scope.bind name value scope) (Scope.bind name value' scope') := by
  induction h with
  | nil => exact .cons ⟨rfl, hvalue⟩ .nil
  | @cons entry entry' rest rest' hentry hrest ih =>
    obtain ⟨key, old⟩ := entry
    obtain ⟨key', old'⟩ := entry'
    obtain ⟨hkey, hold⟩ := hentry
    change key = key' at hkey
    subst hkey
    unfold Scope.bind
    split
    · exact .cons ⟨rfl, hvalue⟩ hrest
    · exact .cons ⟨rfl, hold⟩ ih

theorem findIdx? (h : Rel R scope scope') (name : String) :
    scope'.findIdx? (fun entry => entry.1 == name) =
      scope.findIdx? (fun entry => entry.1 == name) := by
  induction h with
  | nil => rfl
  | cons hentry hrest ih => rw [List.findIdx?_cons, List.findIdx?_cons, ih, hentry.1]

theorem getElem? (h : Rel R scope scope') (place : Nat) :
    Option.Rel (fun entry entry' => entry.1 = entry'.1 ∧ R entry.2 entry'.2) scope[place]?
      scope'[place]? := by
  induction h generalizing place with
  | nil => exact .none
  | cons hentry hrest ih =>
    cases place with
    | zero => exact .some hentry
    | succ place => exact ih place

theorem any (h : Rel R scope scope') (name : String) :
    (scope'.any fun entry => entry.1 == name) = scope.any fun entry => entry.1 == name := by
  induction h with
  | nil => rfl
  | cons hentry hrest ih => rw [List.any_cons, List.any_cons, ih, hentry.1]

end Scope.Rel

namespace Scopes.Rel
variable {α : Type} {R R' : α → α → Prop} {t t' : Scopes α}

theorem imp (h : t.Rel R t') (himp : ∀ a b, R a b → R' a b) : t.Rel R' t' :=
  ⟨h.inner.imp fun _ _ hscope => hscope.imp himp, h.root.imp himp⟩

theorem scopes (h : t.Rel R t') : List.Forall₂ (Scope.Rel R) t.scopes t'.scopes :=
  List.rel_append h.inner (.cons h.root .nil)

theorem enter (h : t.Rel R t') : t.enter.Rel R t'.enter := ⟨.cons .nil h.inner, h.root⟩

theorem leave (h : t.Rel R t') : t.leave.Rel R t'.leave := by
  obtain ⟨inner, root⟩ := t
  obtain ⟨inner', root'⟩ := t'
  obtain ⟨hinner, hroot⟩ := h
  cases hinner with
  | nil => exact ⟨.nil, hroot⟩
  | cons _ houter => exact ⟨houter, hroot⟩

theorem bind (h : t.Rel R t') (name : String) {value value' : α} (hvalue : R value value') :
    (t.bind name value).Rel R (t'.bind name value') := by
  obtain ⟨inner, root⟩ := t
  obtain ⟨inner', root'⟩ := t'
  obtain ⟨hinner, hroot⟩ := h
  cases hinner with
  | nil => exact ⟨.nil, hroot.bind name hvalue⟩
  | cons hscope houter => exact ⟨.cons (hscope.bind name hvalue) houter, hroot⟩

theorem find? (h : t.Rel R t') (name : String) : Option.Rel R (t.find? name) (t'.find? name) := by
  unfold Scopes.find?
  have hscopes := h.scopes
  generalize t.scopes = scopes at hscopes
  generalize t'.scopes = scopes' at hscopes
  induction hscopes with
  | nil => exact .none
  | cons hscope houter ih =>
    rw [List.findSome?_cons, List.findSome?_cons]
    obtain ⟨hnone, hnone'⟩ | ⟨_, _, hsome, hsome', hvalue⟩ := eq_or_of_rel (hscope.value? name)
    · rw [hnone, hnone']
      exact ih
    · rw [hsome, hsome']
      exact .some hvalue

theorem hasHere (h : t.Rel R t') (name : String) : t'.hasHere name = t.hasHere name := by
  have hcurrent : Scope.Rel R t.current t'.current := by
    obtain ⟨inner, root⟩ := t
    obtain ⟨inner', root'⟩ := t'
    obtain ⟨hinner, hroot⟩ := h
    cases hinner with
    | nil => exact hroot
    | cons hscope _ => exact hscope
  unfold Scopes.hasHere Scopes.here?
  obtain ⟨hnone, hnone'⟩ | ⟨_, _, hsome, hsome', -⟩ := eq_or_of_rel (hcurrent.value? name)
  · rw [hnone, hnone']
  · rw [hsome, hsome']
    rfl

theorem size (h : t.Rel R t') : t'.size = t.size :=
  (List.rel_flatten h.scopes).length_eq.symm

theorem changeScopes {inner inner' : List (Scope α)} (h : List.Forall₂ (Scope.Rel R) inner inner')
    (name : String) {f g : α → α} (hfg : ∀ a b, R a b → R (f a) (g b)) :
    Option.Rel (List.Forall₂ (Scope.Rel R)) (Scopes.changeScopes name f inner)
      (Scopes.changeScopes name g inner') := by
  induction h with
  | nil => exact .none
  | cons hscope houter ih =>
    unfold Scopes.changeScopes
    obtain ⟨hnone, hnone'⟩ | ⟨_, _, hsome, hsome', hvalue⟩ := eq_or_of_rel (hscope.value? name)
    · rw [hnone, hnone']
      obtain ⟨hrest, hrest'⟩ | ⟨_, _, hrest, hrest', hinner⟩ := eq_or_of_rel ih
      · rw [hrest, hrest']
        exact .none
      · rw [hrest, hrest']
        exact .some (.cons hscope hinner)
    · rw [hsome, hsome']
      exact .some (.cons (hscope.bind name (hfg _ _ hvalue)) houter)

theorem change (h : t.Rel R t') (name : String) {f g : α → α}
    (hfg : ∀ a b, R a b → R (f a) (g b)) : (t.change name f).Rel R (t'.change name g) := by
  unfold Scopes.change
  obtain ⟨hnone, hnone'⟩ | ⟨_, _, hsome, hsome', hinner⟩ :=
    eq_or_of_rel (changeScopes h.inner name hfg)
  · rw [hnone, hnone']
    obtain ⟨hnone, hnone'⟩ | ⟨_, _, hsome, hsome', hvalue⟩ := eq_or_of_rel (h.root.value? name)
    · rw [hnone, hnone']
      exact h
    · rw [hsome, hsome']
      exact ⟨h.inner, h.root.bind name (hfg _ _ hvalue)⟩
  · rw [hsome, hsome']
    exact ⟨hinner, h.root⟩

end Scopes.Rel

def Scopes.Lacks {α : Type} (t : Scopes α) (name : String) : Prop :=
  ∀ scope ∈ t.scopes, scope.value? name = none

namespace Scopes.Lacks
variable {α : Type} {t : Scopes α} {name : String}

theorem find? (h : t.Lacks name) : t.find? name = none := List.findSome?_eq_none_iff.mpr h

theorem enter (h : t.Lacks name) : t.enter.Lacks name := List.forall_mem_cons.mpr ⟨rfl, h⟩

theorem leave (h : t.Lacks name) : t.leave.Lacks name := by
  intro scope hscope
  apply h
  rcases List.mem_append.mp hscope with hinner | hroot
  · exact List.mem_append_left _ (List.mem_of_mem_tail hinner)
  · exact List.mem_append_right _ hroot

theorem bind (h : t.Lacks name) {other : String} (hne : other ≠ name) (value : α) :
    (t.bind other value).Lacks name := by
  have hbind : ∀ scope : Scope α, scope.value? name = none →
      (Scope.bind other value scope).value? name = none := by
    intro scope hscope
    rw [Scope.value?_bind, if_neg (Ne.symm hne), hscope]
  obtain ⟨inner, root⟩ := t
  cases inner with
  | nil =>
    intro scope hscope
    obtain rfl := List.mem_singleton.mp hscope
    exact hbind root (h root List.mem_cons_self)
  | cons first outer =>
    obtain ⟨hfirst, hrest⟩ := List.forall_mem_cons.mp h
    exact List.forall_mem_cons.mpr ⟨hbind first hfirst, hrest⟩

end Scopes.Lacks

/-- How two states correspond: the number that each record and array type of the second has in the
first, the functions that have been declared, and whether the expression that was replaced has been
met. -/
structure Bridge where
  records : List Nat
  arrays : List Nat
  declared : List Nat
  met : Bool

structure Bridge.Le (β β' : Bridge) : Prop where
  records : β.records <+: β'.records
  arrays : β.arrays <+: β'.arrays
  declared : β.declared ⊆ β'.declared
  met : β.met = true → β'.met = true

theorem Bridge.Le.refl (β : Bridge) : β.Le β :=
  ⟨List.prefix_rfl, List.prefix_rfl, List.Subset.refl _, id⟩

theorem Bridge.Le.trans {β β' β'' : Bridge} (h : β.Le β') (h' : β'.Le β'') : β.Le β'' :=
  ⟨h.records.trans h'.records, h.arrays.trans h'.arrays, List.Subset.trans h.declared h'.declared,
    fun hmet => h'.met (h.met hmet)⟩

def Persistent (Q : Bridge → Prop) : Prop := ∀ β β', β.Le β' → Q β → Q β'

theorem Bridge.persistent_le (β : Bridge) : Persistent β.Le := fun _ _ hle h => h.trans hle

theorem Persistent.and {Q Q' : Bridge → Prop} (h : Persistent Q) (h' : Persistent Q') :
    Persistent fun β => Q β ∧ Q' β :=
  fun β β' hle hQ => ⟨h β β' hle hQ.1, h' β β' hle hQ.2⟩

namespace Ty

inductive Same (β : Bridge) : Ty → Ty → Prop
  | int : Same β .int .int
  | string : Same β .string .string
  | void : Same β .void .void
  | nil : Same β .nil .nil
  | error : Same β .error .error
  | record {i k : Nat} (h : β.records[k]? = some i) : Same β (.record i) (.record k)
  | array {i k : Nat} (h : β.arrays[k]? = some i) : Same β (.array i) (.array k)

structure Kept (β : Bridge) (ty ty' : Ty) : Prop where
  same : ty.Same β ty'
  ne_nil : ty' ≠ .nil

/-- What an expression has in the second state when it has the type `ty` in the first. Once the
mistake has been met, its type may be unknown, or `nil` may be all that is left of a record. -/
inductive Follows (lossless : Prop) (β : Bridge) : Ty → Ty → Prop
  | same {ty ty' : Ty} (h : ty.Same β ty') : Follows lossless β ty ty'
  | unknown {ty : Ty} (hmet : β.met = true) : Follows lossless β ty .error
  | nil {i : Nat} (hmet : β.met = true) (hloss : ¬ lossless) : Follows lossless β (.record i) .nil

structure Known (β : Bridge) (ty ty' : Ty) : Prop where
  follows : ty.Follows True β ty'
  ne_nil : ty' ≠ .nil

theorem Same.mono {β β' : Bridge} (hle : β.Le β') {ty ty' : Ty} (h : ty.Same β ty') :
    ty.Same β' ty' := by
  cases h with
  | int => exact .int
  | string => exact .string
  | void => exact .void
  | nil => exact .nil
  | error => exact .error
  | record h => exact .record <| getElem?_of_prefix hle.records h
  | array h => exact .array <| getElem?_of_prefix hle.arrays h

theorem Kept.mono {β β' : Bridge} (hle : β.Le β') {ty ty' : Ty} (h : ty.Kept β ty') :
    ty.Kept β' ty' :=
  ⟨h.same.mono hle, h.ne_nil⟩

theorem Follows.mono {lossless : Prop} {β β' : Bridge} (hle : β.Le β') {ty ty' : Ty}
    (h : ty.Follows lossless β ty') : ty.Follows lossless β' ty' := by
  cases h with
  | same h => exact .same (h.mono hle)
  | unknown hmet => exact .unknown (hle.met hmet)
  | nil hmet hloss => exact .nil (hle.met hmet) hloss

theorem Known.mono {β β' : Bridge} (hle : β.Le β') {ty ty' : Ty} (h : ty.Known β ty') :
    ty.Known β' ty' :=
  ⟨h.follows.mono hle, h.ne_nil⟩

theorem Kept.known {β : Bridge} {ty ty' : Ty} (h : ty.Kept β ty') : ty.Known β ty' :=
  ⟨.same h.same, h.ne_nil⟩

theorem Known.follows_any {β : Bridge} {ty ty' : Ty} (h : ty.Known β ty') (lossless : Prop) :
    ty.Follows lossless β ty' := by
  cases h.follows with
  | same h => exact .same h
  | unknown hmet => exact .unknown hmet
  | nil _ hloss => exact absurd trivial hloss

theorem Known.unknown {β : Bridge} {ty : Ty} (hmet : β.met = true) : ty.Known β .error :=
  ⟨.unknown hmet, by simp⟩

end Ty

structure Registry.Alike (β : Bridge) (r r' : Registry) : Prop where
  recordCount : β.records.length = r'.records.size
  arrayCount : β.arrays.length = r'.arrays.size
  recordsNodup : β.records.Nodup
  arraysNodup : β.arrays.Nodup
  record : ∀ {k i : Nat}, β.records[k]? = some i → ∃ a b : RecordType, r.records[i]? = some a ∧
    r'.records[k]? = some b ∧ Scope.Rel (Ty.Kept β) a.fields b.fields
  array : ∀ {k i : Nat}, β.arrays[k]? = some i → ∃ a b : ArrayType, r.arrays[i]? = some a ∧
    r'.arrays[k]? = some b ∧ a.element.Kept β b.element

theorem eq_of_getElem?_of_nodup {ids : List Nat} (h : ids.Nodup) {k k' i : Nat}
    (hk : ids[k]? = some i) (hk' : ids[k']? = some i) : k = k' := by
  obtain ⟨hlt, hval⟩ := List.getElem?_eq_some_iff.mp hk
  obtain ⟨hlt', hval'⟩ := List.getElem?_eq_some_iff.mp hk'
  exact (List.Nodup.getElem_inj_iff h).mp (hval.trans hval'.symm)

namespace Registry.Alike
variable {β : Bridge} {r r' : Registry}

/-- What goes together in the first state does so in the second, unless `nil` is offered to what
is not known to be a record any more. -/
theorem accepts (h : r.Alike β r') {lossless : Prop} {expected received expected' received' : Ty}
    (hexpected : expected.Follows lossless β expected')
    (hreceived : received.Follows lossless β received')
    (haccepts : expected.accepts received = true) :
    expected'.accepts received' = true ∨ β.met = true ∧ ¬ lossless ∧ received' = .nil := by
  cases hexpected with
  | unknown => exact .inl rfl
  | same hsame =>
    cases hreceived with
    | unknown => exact .inl (by cases expected' <;> rfl)
    | nil hmet hloss =>
      cases hsame with
      | record => exact .inl rfl
      | error => exact .inl rfl
      | int | string | void | nil | array => exact .inr ⟨hmet, hloss, rfl⟩
    | same hsame' =>
      left
      cases hsame with
      | error => rfl
      | int => cases hsame' <;> first | rfl | simp [Ty.accepts] at haccepts
      | string => cases hsame' <;> first | rfl | simp [Ty.accepts] at haccepts
      | void => cases hsame' <;> first | rfl | simp [Ty.accepts] at haccepts
      | nil => cases hsame' <;> first | rfl | simp [Ty.accepts] at haccepts
      | @record i k hk =>
        cases hsame' with
        | error => rfl
        | nil => rfl
        | @record i' k' hk' =>
          have heq : i = i' := by simpa [Ty.accepts] using haccepts
          subst heq
          simp [Ty.accepts, eq_of_getElem?_of_nodup h.recordsNodup hk hk']
        | int | string | void | array => simp [Ty.accepts] at haccepts
      | @array i k hk =>
        cases hsame' with
        | error => rfl
        | @array i' k' hk' =>
          have heq : i = i' := by simpa [Ty.accepts] using haccepts
          subst heq
          simp [Ty.accepts, eq_of_getElem?_of_nodup h.arraysNodup hk hk']
        | int | string | void | nil | record => simp [Ty.accepts] at haccepts
  | nil hmet hloss =>
    cases hreceived with
    | unknown => exact .inl rfl
    | nil => exact .inr ⟨hmet, hloss, rfl⟩
    | same hsame' =>
      cases hsame' with
      | nil => exact .inr ⟨hmet, hloss, rfl⟩
      | record => exact .inl rfl
      | error => exact .inl rfl
      | int | string | void | array => simp [Ty.accepts] at haccepts

theorem extends_ (h : r.Alike β r') {q : Registry} (hextends : r.Extends q) : q.Alike β r' where
  recordCount := h.recordCount
  arrayCount := h.arrayCount
  recordsNodup := h.recordsNodup
  arraysNodup := h.arraysNodup
  record hk := by
    obtain ⟨a, b, ha, hb, hfields⟩ := h.record hk
    exact ⟨a, b, hextends.record? ha, hb, hfields⟩
  array hk := by
    obtain ⟨a, b, ha, hb, helement⟩ := h.array hk
    exact ⟨a, b, hextends.array? ha, hb, helement⟩

theorem met (h : r.Alike β r') {β' : Bridge} (hle : β.Le β') (hrecords : β'.records = β.records)
    (harrays : β'.arrays = β.arrays) : r.Alike β' r' where
  recordCount := hrecords ▸ h.recordCount
  arrayCount := harrays ▸ h.arrayCount
  recordsNodup := hrecords ▸ h.recordsNodup
  arraysNodup := harrays ▸ h.arraysNodup
  record hk := by
    obtain ⟨a, b, ha, hb, hfields⟩ := h.record (hrecords ▸ hk)
    exact ⟨a, b, ha, hb, hfields.imp fun _ _ hkept => hkept.mono hle⟩
  array hk := by
    obtain ⟨a, b, ha, hb, helement⟩ := h.array (harrays ▸ hk)
    exact ⟨a, b, ha, hb, helement.mono hle⟩

theorem field? (h : r.Alike β r') {i k : Nat} (hk : β.records[k]? = some i) (name : String) :
    Option.Rel (fun found found' => found.2.Kept β found'.2) (r.field? (.record i) name)
      (r'.field? (.record k) name) := by
  obtain ⟨a, b, ha, hb, hfields⟩ := h.record hk
  unfold Registry.field?
  simp only [ha, hb, Option.bind_eq_bind, Option.bind_some, hfields.findIdx? name]
  cases a.fields.findIdx? fun entry => entry.1 == name with
  | none => exact .none
  | some place =>
    rw [Option.bind_some, Option.bind_some]
    obtain ⟨hnone, hnone'⟩ | ⟨_, _, hsome, hsome', hentry⟩ := eq_or_of_rel (hfields.getElem? place)
    · rw [hnone, hnone']
      exact .none
    · rw [hsome, hsome']
      exact .some hentry.2

theorem element? (h : r.Alike β r') {i k : Nat} (hk : β.arrays[k]? = some i) :
    Option.Rel (Ty.Kept β) (r.element? (.array i)) (r'.element? (.array k)) := by
  obtain ⟨a, b, ha, hb, helement⟩ := h.array hk
  change Option.Rel _ ((r.arrays[i]?).map ArrayType.element) ((r'.arrays[k]?).map ArrayType.element)
  rw [ha, hb]
  exact .some helement

theorem record_lt (h : r.Alike β r') {i : Nat} (hi : i ∈ β.records) : i < r.records.size := by
  obtain ⟨k, hk⟩ := List.mem_iff_getElem?.mp hi
  obtain ⟨a, -, ha, -⟩ := h.record hk
  exact (Array.getElem?_eq_some_iff.mp ha).1

theorem array_lt (h : r.Alike β r') {i : Nat} (hi : i ∈ β.arrays) : i < r.arrays.size := by
  obtain ⟨k, hk⟩ := List.mem_iff_getElem?.mp hi
  obtain ⟨a, -, ha, -⟩ := h.array hk
  exact (Array.getElem?_eq_some_iff.mp ha).1

end Registry.Alike

def Bridge.addRecord (β : Bridge) (i : Nat) : Bridge := { β with records := β.records ++ [i] }

def Bridge.addArray (β : Bridge) (i : Nat) : Bridge := { β with arrays := β.arrays ++ [i] }

theorem Bridge.le_met (β : Bridge) : β.Le { β with met := true } :=
  ⟨List.prefix_rfl, List.prefix_rfl, List.Subset.refl _, fun _ => rfl⟩

theorem Bridge.le_addRecord (β : Bridge) (i : Nat) : β.Le (β.addRecord i) :=
  ⟨List.prefix_append _ _, List.prefix_rfl, List.Subset.refl _, id⟩

theorem Bridge.le_addArray (β : Bridge) (i : Nat) : β.Le (β.addArray i) :=
  ⟨List.prefix_rfl, List.prefix_append _ _, List.Subset.refl _, id⟩

theorem getElem?_snoc_cases {ids : List Nat} {k i j : Nat} (h : (ids ++ [j])[k]? = some i) :
    ids[k]? = some i ∨ k = ids.length ∧ i = j := by
  rcases Nat.lt_trichotomy k ids.length with hlt | heq | hgt
  · rw [List.getElem?_append_left hlt] at h
    exact .inl h
  · subst heq
    rw [List.getElem?_concat_length] at h
    exact .inr ⟨rfl, (Option.some.inj h).symm⟩
  · rw [List.getElem?_eq_none (by rw [List.length_append, List.length_singleton]; omega)] at h
    cases h

namespace Registry.Alike
variable {β : Bridge} {r r' : Registry}

theorem addRecord (h : r.Alike β r') (name : String) :
    (r.addRecord name).2.Alike (β.addRecord r.records.size) (r'.addRecord name).2 := by
  have hle := β.le_addRecord r.records.size
  have hnew : r.records.size ∉ β.records := fun hmem => Nat.lt_irrefl _ (h.record_lt hmem)
  have hextends := Registry.Extends.addRecord r name
  have hextends' := Registry.Extends.addRecord r' name
  refine ⟨?_, h.arrayCount, ?_, h.arraysNodup, ?_, ?_⟩
  · simp [Bridge.addRecord, Registry.addRecord, h.recordCount]
  · exact List.nodup_append.mpr ⟨h.recordsNodup, List.nodup_singleton _, by
      rintro i hi j hj rfl
      exact hnew (List.mem_singleton.mp hj ▸ hi)⟩
  · intro k i hk
    rcases getElem?_snoc_cases hk with hold | ⟨rfl, rfl⟩
    · obtain ⟨a, b, ha, hb, hfields⟩ := h.record hold
      exact ⟨a, b, hextends.record? ha, hextends'.record? hb,
        hfields.imp fun _ _ hkept => hkept.mono hle⟩
    · refine ⟨⟨name, [], false⟩, ⟨name, [], false⟩, ?_, ?_, .nil⟩
      · exact Array.getElem?_push_size
      · rw [h.recordCount]
        exact Array.getElem?_push_size
  · intro k i hk
    obtain ⟨a, b, ha, hb, helement⟩ := h.array hk
    exact ⟨a, b, ha, hb, helement.mono hle⟩

theorem fillRecord (h : r.Alike β r') {i k : Nat} (hk : β.records[k]? = some i)
    {fields fields' : Scope Ty} (hfields : fields.Rel (Ty.Kept β) fields') :
    (r.fillRecord i fields).Alike β (r'.fillRecord k fields') := by
  refine ⟨?_, h.arrayCount, h.recordsNodup, h.arraysNodup, ?_, h.array⟩
  · rw [h.recordCount]
    exact (Array.size_modify ..).symm
  · intro k' i' hk'
    obtain ⟨a, b, ha, hb, hold⟩ := h.record hk'
    unfold Registry.fillRecord
    simp only [Array.getElem?_modify, ha, hb]
    -- The numbers of the two sides are the same or different together.
    by_cases heq : k = k'
    · subst heq
      obtain rfl := Option.some.inj (hk.symm.trans hk')
      simp only [if_true]
      exact ⟨_, _, rfl, rfl, hfields⟩
    · have hne : i ≠ i' := by
        rintro rfl
        exact heq (eq_of_getElem?_of_nodup h.recordsNodup hk hk')
      simp only [if_neg heq, if_neg hne]
      exact ⟨a, b, rfl, rfl, hold⟩

theorem addArray (h : r.Alike β r') (name : String) {element element' : Ty}
    (helement : element.Kept β element') :
    (r.addArray name element).2.Alike (β.addArray r.arrays.size) (r'.addArray name element').2 := by
  have hle := β.le_addArray r.arrays.size
  have hnew : r.arrays.size ∉ β.arrays := fun hmem => Nat.lt_irrefl _ (h.array_lt hmem)
  have hextends := Registry.Extends.addArray r name element
  have hextends' := Registry.Extends.addArray r' name element'
  refine ⟨h.recordCount, ?_, h.recordsNodup, ?_, ?_, ?_⟩
  · simp [Bridge.addArray, Registry.addArray, h.arrayCount]
  · exact List.nodup_append.mpr ⟨h.arraysNodup, List.nodup_singleton _, by
      rintro i hi j hj rfl
      exact hnew (List.mem_singleton.mp hj ▸ hi)⟩
  · intro k i hk
    obtain ⟨a, b, ha, hb, hfields⟩ := h.record hk
    exact ⟨a, b, ha, hb, hfields.imp fun _ _ hkept => hkept.mono hle⟩
  · intro k i hk
    rcases getElem?_snoc_cases hk with hold | ⟨rfl, rfl⟩
    · obtain ⟨a, b, ha, hb, hkept⟩ := h.array hold
      exact ⟨a, b, hextends.array? ha, hextends'.array? hb, hkept.mono hle⟩
    · refine ⟨⟨name, element⟩, ⟨name, element'⟩, ?_, ?_, helement.mono hle⟩
      · exact Array.getElem?_push_size
      · rw [h.arrayCount]
        exact Array.getElem?_push_size

end Registry.Alike

structure TypeBinding.Alike (β : Bridge) (a b : TypeBinding) : Prop where
  definition : a.definition = b.definition
  resolved : Option.Rel (Ty.Kept β) a.resolved b.resolved

structure VarBinding.Alike (β : Bridge) (a b : VarBinding) : Prop where
  ty : a.ty.Known β b.ty
  readOnly : a.readOnly = b.readOnly

structure SignaturesAlike (β : Bridge) (params params' : List Ty) (result result' : Ty) : Prop where
  params : List.Forall₂ (Ty.Kept β) params params'
  result : result.Kept β result'

def FunBinding.Alike (β : Bridge) (a b : FunBinding) : Prop :=
  SignaturesAlike β a.params b.params a.result b.result

def Routine.Alike (β : Bridge) (a b : Routine) : Prop :=
  SignaturesAlike β a.params b.params a.result b.result

theorem TypeBinding.Alike.mono {β β' : Bridge} (hle : β.Le β') {a b : TypeBinding}
    (h : a.Alike β b) : a.Alike β' b :=
  ⟨h.definition, rel_imp h.resolved fun hkept => hkept.mono hle⟩

theorem TypeBinding.Alike.settle {β : Bridge} {a b : TypeBinding} (h : a.Alike β b) {ty ty' : Ty}
    (hty : ty.Kept β ty') :
    TypeBinding.Alike β { a with resolved := some ty } { b with resolved := some ty' } :=
  ⟨h.definition, .some hty⟩

theorem VarBinding.Alike.mono {β β' : Bridge} (hle : β.Le β') {a b : VarBinding}
    (h : a.Alike β b) : a.Alike β' b :=
  ⟨h.ty.mono hle, h.readOnly⟩

theorem SignaturesAlike.mono {β β' : Bridge} (hle : β.Le β') {params params' : List Ty}
    {result result' : Ty} (h : SignaturesAlike β params params' result result') :
    SignaturesAlike β' params params' result result' :=
  ⟨h.params.imp fun _ _ hkept => hkept.mono hle, h.result.mono hle⟩

theorem forall_mem_of_forall₂ {α : Type} {R : α → α → Prop} {P Q : α → Prop} {xs ys : List α}
    (h : List.Forall₂ R xs ys) (hPQ : ∀ a b, R a b → P a → Q b) (hP : ∀ a ∈ xs, P a) :
    ∀ b ∈ ys, Q b := by
  induction h with
  | nil => simp
  | @cons a b xs ys hab hrest ih =>
    obtain ⟨ha, hxs⟩ := List.forall_mem_cons.mp hP
    exact List.forall_mem_cons.mpr ⟨hPQ a b hab ha, ih hxs⟩

theorem Scopes.Rel.allResolved {β : Bridge} {types types' : Scopes TypeBinding}
    (h : types.Rel (TypeBinding.Alike β) types') (hall : AllResolved types) :
    AllResolved types' := by
  refine forall_mem_of_forall₂ h.scopes (fun scope scope' hscope hscopeAll => ?_) hall
  refine forall_mem_of_forall₂ hscope (fun entry entry' hentry hresolved => ?_) hscopeAll
  obtain ⟨hnone, -⟩ | ⟨_, _, -, hsome, -⟩ := eq_or_of_rel hentry.2.resolved
  · rw [hnone] at hresolved
    cases hresolved
  · rw [hsome]
    rfl

/-- One expression of a program, and the reference to an unknown variable that is put in its place.
Where it is `lossless`, no conditional has its type from its first branch alone, so that no record
type can give way to `nil`. -/
structure Mistake where
  old : Exp
  node : Node
  varNode : Node
  name : String
  lossless : Prop

namespace Mistake

def new (m : Mistake) : Exp := .var m.node (.simple m.varNode m.name)

def report (m : Mistake) : Diagnostic := ⟨.undefinedName .variable m.name, m.varNode.span.start⟩

end Mistake

/-- The same is known in both states, as far as the mistake lets it be. Of functions in the
expression that was replaced nothing is said. -/
structure Checker.Alike (m : Mistake) (β : Bridge) (s s' : Checker) : Prop where
  registry : s.registry.Alike β s'.registry
  types : s.types.Rel (TypeBinding.Alike β) s'.types
  vars : s.vars.Rel (VarBinding.Alike β) s'.vars
  functions : s.functions.Rel (FunBinding.Alike β) s'.functions
  loopDepth : s'.loopDepth = s.loopDepth
  routines : ∀ {id : Nat}, id ∉ m.old.ids → Option.Rel (fun i k => ∃ a b : Routine,
    s.facts.functions[i]? = some a ∧ s'.facts.functions[k]? = some b ∧ a.Alike β b)
    s.facts.routineOf[id]? s'.facts.routineOf[id]?
  declared : ∀ id ∈ β.declared, (s'.facts.routineOf[id]?).isSome
  unbound : s'.vars.Lacks m.name

structure Checker.SameKnown (s r : Checker) : Prop where
  registry : r.registry = s.registry
  types : r.types = s.types
  vars : r.vars = s.vars
  functions : r.functions = s.functions
  loopDepth : r.loopDepth = s.loopDepth
  routineOf : r.facts.routineOf = s.facts.routineOf
  routines : r.facts.functions = s.facts.functions

theorem Checker.SameKnown.refl (s : Checker) : s.SameKnown s := ⟨rfl, rfl, rfl, rfl, rfl, rfl, rfl⟩

theorem Checker.SameKnown.of_reports {s r : Checker} (h : s.Reports r) : s.SameKnown r := by
  rw [h.same]
  exact ⟨rfl, rfl, rfl, rfl, rfl, rfl, rfl⟩

theorem Checker.Alike.congr {m : Mistake} {β : Bridge} {s s' r r' : Checker} (h : s.Alike m β s')
    (hr : s.SameKnown r) (hr' : s'.SameKnown r') : r.Alike m β r' where
  registry := by rw [hr.registry, hr'.registry]; exact h.registry
  types := by rw [hr.types, hr'.types]; exact h.types
  vars := by rw [hr.vars, hr'.vars]; exact h.vars
  functions := by rw [hr.functions, hr'.functions]; exact h.functions
  loopDepth := by rw [hr.loopDepth, hr'.loopDepth]; exact h.loopDepth
  routines hid := by
    rw [hr.routineOf, hr'.routineOf, hr.routines, hr'.routines]
    exact h.routines hid
  declared := by rw [hr'.routineOf]; exact h.declared
  unbound := by rw [hr'.vars]; exact h.unbound

theorem Checker.Alike.reported {m : Mistake} {β : Bridge} {s s' : Checker} (h : s.Alike m β s')
    (cause : Cause) (position : Position) :
    s.Alike m β ((CheckM.report cause position).run s').2 :=
  h.congr (.refl s) (.of_reports (.report s' cause position))

theorem Checker.Alike.withRegistry {m : Mistake} {β β' : Bridge} {s s' : Checker}
    (h : s.Alike m β s') (hle : β.Le β') (hdeclared : β'.declared = β.declared)
    {registry registry' : Registry} (hregistry : registry.Alike β' registry') :
    Checker.Alike m β' { s with registry } { s' with registry := registry' } where
  registry := hregistry
  types := h.types.imp fun _ _ hentry => hentry.mono hle
  vars := h.vars.imp fun _ _ hentry => hentry.mono hle
  functions := h.functions.imp fun _ _ hentry => hentry.mono hle
  loopDepth := h.loopDepth
  routines hid := rel_imp (h.routines hid) fun ⟨a, b, ha, hb, hroutine⟩ =>
    ⟨a, b, ha, hb, hroutine.mono hle⟩
  declared := hdeclared ▸ h.declared
  unbound := h.unbound

end TigerLang
