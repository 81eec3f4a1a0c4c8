import Mathlib.Data.List.Perm.Basic
import TigerLang.Proofs.Walk
import TigerLang.Typing.Headings

/-! The types that a block declares. Once all of its type names have been looked into, each of them
has the type that its definition calls for, and no two declarations share one. -/

namespace TigerLang

def AllResolved (types : Scopes TypeBinding) : Prop :=
  ∀ scope ∈ types.scopes, ∀ entry ∈ scope, entry.2.resolved.isSome

theorem AllResolved.find? {types : Scopes TypeBinding} (h : AllResolved types) {name : String}
    {binding : TypeBinding} (hfind : types.find? name = some binding) :
    binding.resolved.isSome := by
  obtain ⟨scope, hscope, hentry⟩ := Scopes.mem_of_find? hfind
  exact h scope hscope _ hentry

theorem AllResolved.within {outer : Scopes TypeBinding} {scope : Scope TypeBinding}
    (houter : AllResolved outer) (hscope : ∀ entry ∈ scope, entry.2.resolved.isSome) :
    AllResolved (outer.within scope) := by
  intro other hother
  rcases List.mem_cons.mp hother with rfl | hmem
  · exact hscope
  · exact houter other hmem

theorem allResolved_initial : AllResolved Checker.initial.types := by
  unfold AllResolved
  decide

section firstNamed
variable {α : Type} {name : α → String}

def laterNamed (name : α → String) : List String → List α → List α
  | _, [] => []
  | seen, a :: rest =>
    if name a ∈ seen then a :: laterNamed name seen rest
    else laterNamed name (name a :: seen) rest

theorem firstNamed_laterNamed_congr {seen seen' : List String} (h : ∀ n, n ∈ seen ↔ n ∈ seen')
    (items : List α) : firstNamed name seen items = firstNamed name seen' items ∧
      laterNamed name seen items = laterNamed name seen' items := by
  induction items generalizing seen seen' with
  | nil => exact ⟨rfl, rfl⟩
  | cons a rest ih =>
    have hcons : ∀ n, n ∈ name a :: seen ↔ n ∈ name a :: seen' := fun n => by simp [h n]
    simp only [firstNamed, laterNamed, h (name a), ih h, ih hcons, and_self]

theorem laterNamed_eq_nil_iff {seen : List String} {items : List α} :
    laterNamed name seen items = [] ↔
      (items.map name).Nodup ∧ ∀ a ∈ items, name a ∉ seen := by
  induction items generalizing seen with
  | nil => simp [laterNamed]
  | cons a rest ih =>
    rw [laterNamed, List.map_cons, List.nodup_cons, List.forall_mem_cons]
    by_cases hmem : name a ∈ seen
    · rw [if_pos hmem]
      exact iff_of_false (List.cons_ne_nil _ _) fun h => h.2.1 hmem
    · rw [if_neg hmem, ih]
      constructor
      · rintro ⟨hnodup, hnew⟩
        refine ⟨⟨fun hname => ?_, hnodup⟩, hmem, fun b hb hseen => ?_⟩
        · obtain ⟨b, hb, heq⟩ := List.mem_map.mp hname
          exact hnew b hb (by simp [heq])
        · exact hnew b hb (List.mem_cons_of_mem _ hseen)
      · rintro ⟨⟨hname, hnodup⟩, -, hnew⟩
        refine ⟨hnodup, fun b hb hseen => ?_⟩
        rcases List.mem_cons.mp hseen with heq | hseen
        · exact hname (heq ▸ List.mem_map_of_mem hb)
        · exact hnew b hb hseen

end firstNamed

def TypeBlock.redeclared (entry : String × TypeBinding) : Diagnostic :=
  ⟨.redefinition .type entry.1, entry.2.position⟩

theorem typeEntries_open {decs : List Dec} {entry : String × TypeBinding}
    (h : entry ∈ typeEntries decs) :
    entry.2.resolved = none ∧ entry.2.definition.isSome := by
  obtain ⟨d, -, hd⟩ := List.mem_filterMap.mp h
  cases d with
  | type node name definition =>
    obtain rfl := Option.some.inj hd
    exact ⟨rfl, rfl⟩
  | var node name typeName init => simp at hd
  | function node name params result body => simp at hd

theorem declaredTypes_unresolved {outer : Scopes TypeBinding} (houter : AllResolved outer)
    (decs : List Dec) : TypeBlock.Unresolved ⟨outer, declaredTypes decs⟩ where
  nodup := firstNamed_nodup _ _
  open_ hvalue := typeEntries_open (mem_firstNamed (Scope.mem_of_value? hvalue)).1
  outer hfind := houter.find? hfind

namespace CheckM

theorem hasHere_within_iff {outer : Scopes TypeBinding} {scope : Scope TypeBinding}
    {name : String} : (outer.within scope).hasHere name = true ↔ name ∈ scope.map Prod.fst := by
  rw [Scopes.hasHere_within, Option.isSome_iff_ne_none, ne_eq, Scope.value?_eq_none_iff, not_not]

section declareTypes
variable {s : Checker} {name : String}

theorem declareTypes_again (h : s.types.hasHere name = true) (node : Node) (definition : TypeExp)
    (decs : List Dec) :
    (declareTypes (.type node name definition :: decs)).run s =
      (declareTypes decs).run ((report (.redefinition .type name) node.span.start).run s).2 := by
  rw [declareTypes, run_get_bind, if_pos h]
  rfl

theorem declareTypes_new (h : ¬ s.types.hasHere name = true) (node : Node) (definition : TypeExp)
    (decs : List Dec) {s' : Checker}
    (hs' : s' = { s with types := s.types.bind name ⟨some definition, none, node.span.start⟩ }) :
    (declareTypes (.type node name definition :: decs)).run s =
      ((name, node.span.start) :: ((declareTypes decs).run s').1,
        ((declareTypes decs).run s').2) := by
  rw [declareTypes, run_get_bind, if_neg h, hs']
  rfl

end declareTypes

theorem declareTypes_run {outer : Scopes TypeBinding} (decs : List Dec) {scope : Scope TypeBinding}
    {s : Checker} (htypes : s.types = outer.within scope) :
    ∃ diagnostics events,
      (declareTypes decs).run s =
        ((firstNamed Prod.fst (scope.map Prod.fst) (typeEntries decs)).map
            fun entry => (entry.1, entry.2.position),
          { s with
            types := outer.within
              (scope ++ firstNamed Prod.fst (scope.map Prod.fst) (typeEntries decs))
            diagnostics, events }) ∧
      s.diagnostics.toList <+: diagnostics.toList ∧ s.events.toList <+: events.toList ∧
      diagnostics.toList = s.diagnostics.toList ++
        (laterNamed Prod.fst (scope.map Prod.fst) (typeEntries decs)).map TypeBlock.redeclared := by
  induction decs generalizing scope s with
  | nil =>
    refine ⟨s.diagnostics, s.events, ?_, List.prefix_rfl, List.prefix_rfl,
      (List.append_nil _).symm⟩
    rw [typeEntries, List.filterMap_nil, firstNamed, List.append_nil, ← htypes]
    rfl
  | cons d decs ih =>
    cases d with
    | var node name typeName init => exact ih htypes
    | function node name params result body => exact ih htypes
    | type node name definition =>
      have hentries : typeEntries (.type node name definition :: decs) =
          (name, ⟨some definition, none, node.span.start⟩) :: typeEntries decs := rfl
      rw [hentries, firstNamed, laterNamed]
      have hhere : s.types.hasHere name = true ↔ name ∈ scope.map Prod.fst :=
        htypes ▸ hasHere_within_iff
      set entry : TypeBinding := ⟨some definition, none, node.span.start⟩
      by_cases hmem : name ∈ scope.map Prod.fst
      · have hreport := declareTypes_again (hhere.mpr hmem) node definition decs
        set s₁ := ((report (.redefinition .type name) node.span.start).run s).2
        obtain ⟨diagnostics, events, hrun, hdiagnostics, hevents, hexact⟩ := ih (s := s₁) htypes
        have hlonger := (diagnostics_report (.redefinition .type name) node.span.start s).trans
          hdiagnostics
        have htold := (events_tell (.reported (.redefinition .type name)) s).trans hevents
        have hpush : s₁.diagnostics = s.diagnostics.push (TypeBlock.redeclared (name, entry)) := rfl
        refine ⟨diagnostics, events, ?_, hlonger, htold, ?_⟩
        · rw [hreport, hrun, if_pos hmem]
          rfl
        · rw [hexact, hpush, Array.toList_push, if_pos hmem, List.map_cons, List.append_assoc,
            List.singleton_append]
      · have habsent : scope.value? name = none := Scope.value?_eq_none_iff.mpr hmem
        have htypes' : s.types.bind name entry = outer.within (scope ++ [(name, entry)]) := by
          rw [htypes, Scopes.bind_within, Scope.bind_of_absent entry habsent]
        have hbind := declareTypes_new (mt hhere.mp hmem) node definition decs rfl
        obtain ⟨diagnostics, events, hrun, hdiagnostics, hevents, hexact⟩ :=
          ih (s := { s with types := s.types.bind name entry }) htypes'
        have hseen : ∀ n, n ∈ (scope ++ [(name, entry)]).map Prod.fst ↔
            n ∈ name :: scope.map Prod.fst := fun n => by simp [or_comm]
        obtain ⟨hfirst, hlater⟩ := firstNamed_laterNamed_congr hseen (typeEntries decs)
        refine ⟨diagnostics, events, ?_, hdiagnostics, hevents, ?_⟩
        · rw [hbind, hrun, if_neg hmem, hfirst, List.append_assoc]
          rfl
        · rw [hexact, if_neg hmem, hlater]

variable {b : TypeBlock} {start s : Checker} {unfinished : List String}
  {scope : Scope TypeBinding}

theorem resolveTypes_finds (hb : b.Unresolved) (names : List (String × Position))
    (hs : Resolving b start unfinished scope s) :
    ∃ scope', Resolving b start unfinished scope' ((resolveTypes names).run s).2 ∧
      Refines scope scope' ∧
      (∀ name ∈ names, ∃ ty, Stands (b.outer.within scope') name.1 ty) ∧
      s.diagnostics.toList <+: ((resolveTypes names).run s).2.diagnostics.toList ∧
      (b.FieldsGrounded → (∀ name ∈ names, b.Grounded name.1) →
        ((resolveTypes names).run s).2.diagnostics = s.diagnostics) := by
  induction names generalizing scope s with
  | nil => exact ⟨scope, hs, .refl _, by simp, List.prefix_rfl, fun _ _ => rfl⟩
  | cons name rest ih =>
    obtain ⟨name, position⟩ := name
    obtain ⟨scope₁, hfound⟩ := typeNamed_finds hb hs name position
    obtain ⟨scope₂, hs₂, hscope, hstands, hlonger, hsilent⟩ := ih hfound.resolving
    have hrun : (resolveTypes ((name, position) :: rest)).run s =
        (resolveTypes rest).run ((typeNamed name position).run s).2 := by
      rw [resolveTypes, run_forM_cons, run_discard, resolveTypes]
    rw [hrun]
    refine ⟨scope₂, hs₂, hfound.refines.trans hscope, fun other hother => ?_,
      hfound.longer.trans hlonger, fun hfields hground => ?_⟩
    · rcases List.mem_cons.mp hother with rfl | hother
      · exact ⟨_, hscope.stands hfound.stands⟩
      · exact hstands other hother
    · exact (hsilent hfields fun other hother => hground other (List.mem_cons_of_mem _ hother)).trans
        (hfound.quiet ⟨hfields, hground _ List.mem_cons_self⟩)

theorem resolving_entered {outer : Scopes TypeBinding} {decs : List Dec}
    {diagnostics : Array Diagnostic} {events : Array Event}
    (hb : TypeBlock.Unresolved ⟨outer, declaredTypes decs⟩)
    (hdiagnostics : s.diagnostics.toList <+: diagnostics.toList)
    (hevents : s.events.toList <+: events.toList) :
    Resolving ⟨outer, declaredTypes decs⟩ s [] (declaredTypes decs)
      { s with types := outer.within (declaredTypes decs), diagnostics, events } := by
  have hopen : ∀ name, (declaredTypes decs).resolved? name = none := by
    intro name
    rw [Scope.resolved?, Option.bind_eq_none_iff]
    intro binding hbinding
    exact (hb.open_ hbinding).1
  refine ⟨rfl, .refl _, ?_, ⟨rfl, rfl, rfl, rfl, rfl⟩, hdiagnostics, hevents, fun _ _ => ?_⟩
  · refine ⟨fun _ hty => ?_, fun hty => ?_, fun hle hlt => absurd hlt (Nat.not_lt.mpr hle),
      fun hle hlt => absurd hlt (Nat.not_lt.mpr hle), .refl _⟩ <;> simp [hopen] at hty
  · exact ⟨fun name => by simp [hopen], fun {name _ _} _ _ hty => by simp [hopen] at hty⟩

structure TypesSettled (outer : Scopes TypeBinding) (decs : List Dec) (s s' : Checker)
    (scope : Scope TypeBinding) : Prop where
  resolving : Resolving ⟨outer, declaredTypes decs⟩ s [] scope s'
  settled : ∀ entry ∈ scope, entry.2.resolved.isSome
  distinct : s'.diagnostics = s.diagnostics → ((typeEntries decs).map Prod.fst).Nodup
  quiet : ((typeEntries decs).map Prod.fst).Nodup →
    TypeBlock.FieldsGrounded ⟨outer, declaredTypes decs⟩ →
    (∀ entry ∈ typeEntries decs, TypeBlock.Grounded ⟨outer, declaredTypes decs⟩ entry.1) →
    s'.diagnostics = s.diagnostics

theorem declareTypes_resolveTypes {outer : Scopes TypeBinding} (houter : AllResolved outer)
    (htypes : s.types = outer.within []) (decs : List Dec) :
    ∃ scope, TypesSettled outer decs s ((declareTypes decs >>= resolveTypes).run s).2 scope := by
  have hb := declaredTypes_unresolved houter decs
  obtain ⟨diagnostics, events, hrun, hdiagnostics, hevents, hexact⟩ := declareTypes_run decs htypes
  have hdistinct : diagnostics = s.diagnostics ↔ ((typeEntries decs).map Prod.fst).Nodup := by
    rw [← Array.toList_inj, hexact, List.append_right_eq_self, List.map_eq_nil_iff,
      laterNamed_eq_nil_iff]
    simp
  have hentered := resolving_entered hb hdiagnostics hevents
  obtain ⟨scope, hs, -, hstands, hlonger, hsilent⟩ := resolveTypes_finds hb
    ((declaredTypes decs).map fun entry => (entry.1, entry.2.position)) hentered
  rw [run_bind, hrun]
  refine ⟨scope, hs, fun entry hentry => ?_, fun hsame => ?_, fun hnodup hfields hground => ?_⟩
  · have hvalue : scope.value? entry.1 = some entry.2 :=
      Scope.value?_of_mem (hs.refines.names ▸ hb.nodup) hentry
    have hname : entry.1 ∈ (declaredTypes decs).map Prod.fst :=
      hs.refines.names ▸ List.mem_map_of_mem hentry
    obtain ⟨declared, hdeclared, heq⟩ := List.mem_map.mp hname
    obtain ⟨ty, hty⟩ := hstands _ (List.mem_map_of_mem hdeclared)
    simp only [Stands, heq, Scopes.find?_within, hvalue, Option.some_or] at hty
    simp [hty]
  · exact hdistinct.mp (eq_of_between hdiagnostics hlonger hsame)
  · refine (hsilent hfields fun name hname => ?_).trans (hdistinct.mpr hnodup)
    obtain ⟨entry, hentry, rfl⟩ := List.mem_map.mp hname
    exact hground entry (mem_firstNamed hentry).1

end CheckM

def typeOf? (types : Scopes TypeBinding) (name : String) : Option Ty :=
  (types.find? name).bind TypeBinding.resolved

def typeIn (types : Scopes TypeBinding) (name : String) : Ty := (typeOf? types name).getD .error

theorem Refines.typeOf? {outer : Scopes TypeBinding} {scope scope' : Scope TypeBinding}
    (h : Refines scope scope') {name : String} {ty : Ty}
    (hty : TigerLang.typeOf? (outer.within scope) name = some ty) :
    TigerLang.typeOf? (outer.within scope') name = some ty := by
  unfold TigerLang.typeOf? at hty ⊢
  rw [Scopes.find?_within] at hty ⊢
  cases hvalue : scope.value? name with
  | none => rwa [h.value?_eq_none_iff.mpr hvalue, ← hvalue]
  | some binding =>
    obtain ⟨r, hr, hkept⟩ := h.kept hvalue
    rw [hvalue, Option.some_or, Option.bind_some] at hty
    rw [hr, Option.some_or, Option.bind_some]
    exact hkept ty hty

theorem Stands.eq_typeIn {types : Scopes TypeBinding} {name : String} {ty : Ty}
    (h : Stands types name ty) : ty = typeIn types name := by
  unfold Stands at h
  unfold typeIn typeOf?
  split at h
  · next hnone => simp [hnone, h]
  · next binding hsome => simp [hsome, h]

theorem FieldsStand.eq_map {types : Scopes TypeBinding} {fields : List Field}
    {typed : List (String × Ty)} (h : FieldsStand types fields typed) :
    typed = fields.map fun field => (field.name, typeIn types field.typeName) := by
  induction h with
  | nil => rfl
  | cons hfield _ ih => rw [List.map_cons, ← ih, ← hfield.1, ← hfield.2.eq_typeIn]

/-- The type that a definition calls for. Records and arrays are of a new type, registered after
those of `old`; a name for another type is of that type. -/
def Canonical (types : Scopes TypeBinding) (old registry : Registry) (name : String) :
    TypeExp → Ty → Prop
  | .record _ fields, ty => ∃ k, ty = .record k ∧ old.records.size ≤ k ∧
      registry.records[k]? = some ⟨name, (firstNamed Field.name [] fields).map
        fun field => (field.name, typeIn types field.typeName), true⟩
  | .array _ element, ty => ∃ k, ty = .array k ∧ old.arrays.size ≤ k ∧
      registry.arrays[k]? = some ⟨name, typeIn types element⟩
  | .name _ target, ty => ty = typeIn types target

theorem Fits.canonical {types : Scopes TypeBinding} {old registry : Registry} {name : String}
    {definition : TypeExp} {ty : Ty} (h : Fits types old registry [] name definition ty)
    (hne : ty ≠ .error) : Canonical types old registry name definition ty := by
  cases definition with
  | name span target => exact Stands.eq_typeIn h
  | array span element =>
    rcases h with ⟨herror, -⟩ | ⟨k, elementType, rfl, hk, harray, -, helement⟩
    · exact absurd herror hne
    · exact ⟨k, rfl, hk, helement.eq_typeIn ▸ harray⟩
  | record span fields =>
    obtain ⟨k, ⟨recordName, recordFields, complete⟩, rfl, hk, hrecord, rfl, hfields⟩ := h
    obtain ⟨rfl, hstand⟩ := hfields (by simp)
    exact ⟨k, rfl, hk, hstand.eq_map ▸ hrecord⟩

theorem exists_added_perm {α : Type} {old new : Array α} (nameOf : α → String)
    (has : String → Nat → Prop) {names : List String} (hfirst : old.toList <+: new.toList)
    (hnodup : names.Nodup) (hunique : ∀ {n k k'}, has n k → has n k' → k = k')
    (hnamed : ∀ n ∈ names, ∃ k a, has n k ∧ old.size ≤ k ∧ new[k]? = some a ∧ nameOf a = n)
    (hcover : ∀ {k}, old.size ≤ k → k < new.size → ∃ n ∈ names, has n k) :
    ∃ added, new.toList = old.toList ++ added ∧ (added.map nameOf).Perm names := by
  obtain ⟨added, hadded⟩ := hfirst
  have hget : ∀ i, new[old.size + i]? = added[i]? := by
    intro i
    rw [← Array.getElem?_toList, ← hadded, List.getElem?_append_right (by simp)]
    simp
  have hsize : new.size = old.size + added.length := by
    rw [← Array.length_toList, ← hadded, List.length_append, Array.length_toList]
  -- The name of the new element at a place has that place as its number.
  have hname : ∀ {i a}, added[i]? = some a →
      nameOf a ∈ names ∧ has (nameOf a) (old.size + i) := by
    intro i a ha
    obtain ⟨hlt, -⟩ := List.getElem?_eq_some_iff.mp ha
    obtain ⟨n, hn, hhas⟩ := hcover (Nat.le_add_right old.size i) (by omega)
    obtain ⟨k, a', hk, -, ha', hna⟩ := hnamed n hn
    rw [hunique hk hhas, hget, ha] at ha'
    cases ha'
    exact hna ▸ ⟨hn, hhas⟩
  refine ⟨added, hadded.symm, (List.perm_ext_iff_of_nodup ?_ hnodup).mpr fun n => ⟨?_, ?_⟩⟩
  · rw [List.nodup_iff_getElem?_ne_getElem?]
    intro i j hij hj heq
    rw [List.length_map] at hj
    obtain ⟨a, ha⟩ : ∃ a, added[i]? = some a := ⟨_, List.getElem?_eq_getElem (by omega)⟩
    obtain ⟨a', ha'⟩ : ∃ a, added[j]? = some a := ⟨_, List.getElem?_eq_getElem hj⟩
    simp only [List.getElem?_map, ha, ha', Option.map_some, Option.some.injEq] at heq
    have hplaces := hunique (hname ha).2 (heq ▸ (hname ha').2)
    omega
  · intro hmem
    obtain ⟨a, ha, rfl⟩ := List.mem_map.mp hmem
    obtain ⟨i, hi⟩ := List.mem_iff_getElem?.mp ha
    exact (hname hi).1
  · intro hn
    obtain ⟨k, a, -, hle, ha, hna⟩ := hnamed n hn
    obtain ⟨i, rfl⟩ := Nat.exists_eq_add_of_le hle
    rw [hget] at ha
    exact List.mem_map.mpr ⟨a, List.mem_iff_getElem?.mpr ⟨i, ha⟩, hna⟩

def TypeExp.isArray : TypeExp → Bool
  | array _ _ => true
  | _ => false

def declaredNames (decs : List Dec) (kind : TypeExp → Bool) : List String :=
  ((declaredTypes decs).filter fun entry => entry.2.definition.any kind).map Prod.fst

theorem declaredNames_nodup (decs : List Dec) (kind : TypeExp → Bool) :
    (declaredNames decs kind).Nodup :=
  (firstNamed_nodup _ _).sublist (List.filter_sublist.map _)

theorem mem_declaredNames (outer : Scopes TypeBinding) {decs : List Dec} {kind : TypeExp → Bool}
    {name : String} : name ∈ declaredNames decs kind ↔
      ∃ definition, TypeBlock.definition? ⟨outer, declaredTypes decs⟩ name = some definition ∧
        kind definition := by
  constructor
  · intro hmem
    obtain ⟨⟨n, binding⟩, hentry, rfl⟩ := List.mem_map.mp hmem
    obtain ⟨hentry, hkind⟩ := List.mem_filter.mp hentry
    have hvalue := Scope.value?_of_mem (firstNamed_nodup [] (typeEntries decs)) hentry
    cases hdefinition : binding.definition with
    | none => simp [hdefinition] at hkind
    | some definition =>
      rw [hdefinition] at hkind
      exact ⟨definition, Option.bind_eq_some_iff.mpr ⟨binding, hvalue, hdefinition⟩, hkind⟩
  · rintro ⟨definition, hname, hkind⟩
    obtain ⟨binding, hvalue, hdefinition⟩ := Option.bind_eq_some_iff.mp hname
    refine List.mem_map.mpr ⟨(name, binding), List.mem_filter.mpr ?_, rfl⟩
    exact ⟨Scope.mem_of_value? hvalue, by rw [hdefinition]; exact hkind⟩

/-- The state `done` after the type names of a block have been looked into in the state `s`: the
declarations that lead nowhere have the unknown type, the others the one that they call for. Each
record and each array has a type of its own, and no other types are registered. -/
structure CanonicalTypes (decs : List Dec) (s done : Checker) : Prop where
  outer : done.types.leave = s.types
  lost : ∀ {name definition},
    TypeBlock.definition? ⟨s.types, declaredTypes decs⟩ name = some definition →
    TypeBlock.Lost ⟨s.types, declaredTypes decs⟩ name → typeOf? done.types name = some .error
  found : ∀ {name definition},
    TypeBlock.definition? ⟨s.types, declaredTypes decs⟩ name = some definition →
    ¬ TypeBlock.Lost ⟨s.types, declaredTypes decs⟩ name →
    ∃ ty, typeOf? done.types name = some ty ∧ ty ≠ .error ∧
      Canonical done.types s.registry done.registry name definition ty
  distinct : ∀ m ∈ declaredNames decs (fun d => d.isRecord || d.isArray),
    ∀ n ∈ declaredNames decs (fun d => d.isRecord || d.isArray),
    typeIn done.types m = typeIn done.types n → typeIn done.types m ≠ .error → m = n
  records : ∃ added, done.registry.records.toList = s.registry.records.toList ++ added ∧
    (added.map RecordType.name).Perm (declaredNames decs TypeExp.isRecord)
  arrays : ∃ added, done.registry.arrays.toList = s.registry.arrays.toList ++ added ∧
    (added.map ArrayType.name).Perm ((declaredNames decs TypeExp.isArray).filter
      fun name => typeIn done.types name ≠ .error)

theorem CanonicalTypes.congr {decs : List Dec} {s done done' : Checker}
    (h : CanonicalTypes decs s done) (htypes : done'.types = done.types)
    (hregistry : done'.registry = done.registry) : CanonicalTypes decs s done' where
  outer := htypes ▸ h.outer
  lost hdefinition hlost := htypes ▸ h.lost hdefinition hlost
  found hdefinition hlost := by
    rw [htypes, hregistry]
    exact h.found hdefinition hlost
  distinct := htypes ▸ h.distinct
  records := hregistry ▸ h.records
  arrays := by
    rw [htypes, hregistry]
    exact h.arrays

namespace CheckM.TypesSettled
variable {outer : Scopes TypeBinding} {decs : List Dec} {s s' : Checker}
  {scope : Scope TypeBinding} {name : String} {definition : TypeExp}

theorem typeOf? (h : TypesSettled outer decs s s' scope)
    (hname : TypeBlock.definition? ⟨outer, declaredTypes decs⟩ name = some definition) :
    ∃ ty, TigerLang.typeOf? s'.types name = some ty ∧ scope.resolved? name = some ty := by
  obtain ⟨declared, -, -, hvalue⟩ := h.resolving.bound hname
  obtain ⟨ty, hty⟩ := Option.isSome_iff_exists.mp (h.settled _ (Scope.mem_of_value? hvalue))
  refine ⟨ty, ?_, hty⟩
  rw [TigerLang.typeOf?, h.resolving.types, Scopes.find?_within, hvalue]
  exact hty

theorem eq_error_of_lost (h : TypesSettled outer decs s s' scope) (houter : AllResolved outer)
    (hlost : TypeBlock.Lost ⟨outer, declaredTypes decs⟩ name) {ty : Ty}
    (hty : scope.resolved? name = some ty) : ty = .error := by
  rw [TypeBlock.lost_iff_not_grounded (declaredTypes_unresolved houter decs)] at hlost
  by_cases hne : ty = .error
  · exact hne
  · exact absurd (h.resolving.sound.grounded hty hne) hlost

theorem ne_error_of_not_lost (h : TypesSettled outer decs s s' scope) (houter : AllResolved outer)
    (hname : TypeBlock.definition? ⟨outer, declaredTypes decs⟩ name = some definition)
    (hlost : ¬ TypeBlock.Lost ⟨outer, declaredTypes decs⟩ name) {ty : Ty}
    (hty : scope.resolved? name = some ty) : ty ≠ .error := by
  rw [TypeBlock.lost_iff_not_grounded (declaredTypes_unresolved houter decs), not_not] at hlost
  exact h.resolving.sound.ne_error_of_grounded h.resolving.refines hlost
    ((h.resolving.refines.stands_iff hname).mpr hty)

theorem canonical (h : TypesSettled outer decs s s' scope)
    (hname : TypeBlock.definition? ⟨outer, declaredTypes decs⟩ name = some definition) {ty : Ty}
    (hty : scope.resolved? name = some ty) (hne : ty ≠ .error) :
    Canonical s'.types s.registry s'.registry name definition ty := by
  rw [h.resolving.types]
  exact (h.resolving.sound.fits hname hty).canonical hne

theorem records_perm (h : TypesSettled outer decs s s' scope) :
    ∃ added, s'.registry.records.toList = s.registry.records.toList ++ added ∧
      (added.map RecordType.name).Perm (declaredNames decs TypeExp.isRecord) := by
  have hsound := h.resolving.sound
  have hrecord : ∀ name ∈ declaredNames decs TypeExp.isRecord,
      ∃ k record, scope.resolved? name = some (.record k) ∧ s.registry.records.size ≤ k ∧
        s'.registry.records[k]? = some record ∧ record.name = name := by
    intro name hname
    obtain ⟨definition, hdefinition, hkind⟩ := (mem_declaredNames outer).mp hname
    obtain ⟨ty, -, hty⟩ := h.typeOf? hdefinition
    cases definition with
    | record span fields =>
      obtain ⟨k, record, rfl, hk, hget, hrecordName, -⟩ := hsound.fits hdefinition hty
      exact ⟨k, record, hty, hk, hget, hrecordName⟩
    | name span target => simp [TypeExp.isRecord] at hkind
    | array span element => simp [TypeExp.isRecord] at hkind
  refine exists_added_perm RecordType.name (fun name k => scope.resolved? name = some (.record k))
    hsound.extends_.records (declaredNames_nodup _ _) ?_ hrecord ?_
  · intro name k k' hk hk'
    rw [hk] at hk'
    simpa using hk'
  · intro k hle hlt
    obtain ⟨name, span, fields, hname, hk⟩ := hsound.records hle hlt
    exact ⟨name, (mem_declaredNames outer).mpr ⟨_, hname, rfl⟩, hk⟩

theorem arrays_perm (h : TypesSettled outer decs s s' scope) :
    ∃ added, s'.registry.arrays.toList = s.registry.arrays.toList ++ added ∧
      (added.map ArrayType.name).Perm ((declaredNames decs TypeExp.isArray).filter
        fun name => typeIn s'.types name ≠ .error) := by
  have hsound := h.resolving.sound
  have harray : ∀ name ∈ (declaredNames decs TypeExp.isArray).filter
        (fun name => typeIn s'.types name ≠ .error),
      ∃ k array, scope.resolved? name = some (.array k) ∧ s.registry.arrays.size ≤ k ∧
        s'.registry.arrays[k]? = some array ∧ array.name = name := by
    intro name hname
    rw [List.mem_filter, decide_eq_true_eq] at hname
    obtain ⟨definition, hdefinition, hkind⟩ := (mem_declaredNames outer).mp hname.1
    obtain ⟨ty, htypeOf, hty⟩ := h.typeOf? hdefinition
    have hne : ty ≠ .error := by simpa [typeIn, htypeOf] using hname.2
    cases definition with
    | array span element =>
      obtain ⟨k, rfl, hk, hget⟩ := h.canonical hdefinition hty hne
      exact ⟨k, _, hty, hk, hget, rfl⟩
    | name span target => simp [TypeExp.isArray] at hkind
    | record span fields => simp [TypeExp.isArray] at hkind
  refine exists_added_perm ArrayType.name (fun name k => scope.resolved? name = some (.array k))
    hsound.extends_.arrays ((declaredNames_nodup _ _).sublist List.filter_sublist) ?_ harray ?_
  · intro name k k' hk hk'
    rw [hk] at hk'
    simpa using hk'
  · intro k hle hlt
    obtain ⟨name, span, element, hname, hk⟩ := hsound.arrays hle hlt
    obtain ⟨ty, htypeOf, hty⟩ := h.typeOf? hname
    rw [hk] at hty
    cases hty
    refine ⟨name, List.mem_filter.mpr ⟨(mem_declaredNames outer).mpr ⟨_, hname, rfl⟩, ?_⟩, hk⟩
    simp [typeIn, htypeOf]

end CheckM.TypesSettled

theorem Canonical.eq_of_eq {types : Scopes TypeBinding} {old registry : Registry} {m n : String}
    {d d' : TypeExp} {ty : Ty} (hm : Canonical types old registry m d ty)
    (hn : Canonical types old registry n d' ty) (hd : d.isRecord || d.isArray)
    (hd' : d'.isRecord || d'.isArray) : m = n := by
  cases d with
  | name span target => simp [TypeExp.isRecord, TypeExp.isArray] at hd
  | record span fields =>
    obtain ⟨k, rfl, -, hk⟩ := hm
    cases d' with
    | name span target => simp [TypeExp.isRecord, TypeExp.isArray] at hd'
    | record span' fields' =>
      obtain ⟨k', heq, -, hk'⟩ := hn
      cases heq
      exact congrArg RecordType.name (Option.some.inj (hk.symm.trans hk'))
    | array span' element =>
      obtain ⟨k', heq, -, -⟩ := hn
      cases heq
  | array span element =>
    obtain ⟨k, rfl, -, hk⟩ := hm
    cases d' with
    | name span target => simp [TypeExp.isRecord, TypeExp.isArray] at hd'
    | record span' fields' =>
      obtain ⟨k', heq, -, -⟩ := hn
      cases heq
    | array span' element' =>
      obtain ⟨k', heq, -, hk'⟩ := hn
      cases heq
      exact congrArg ArrayType.name (Option.some.inj (hk.symm.trans hk'))

theorem CheckM.TypesSettled.canonicalTypes {decs : List Dec} {entered s s' : Checker}
    {scope : Scope TypeBinding} (hs : AllResolved s.types) (hentered : entered.registry = s.registry)
    (h : TypesSettled s.types decs entered s' scope) : CanonicalTypes decs s s' := by
  constructor
  case outer => rw [h.resolving.types, Scopes.leave_within]
  case lost =>
    intro name definition hname hlost
    obtain ⟨ty, htypeOf, hty⟩ := h.typeOf? hname
    rw [htypeOf, h.eq_error_of_lost hs hlost hty]
  case found =>
    intro name definition hname hlost
    obtain ⟨ty, htypeOf, hty⟩ := h.typeOf? hname
    have hne := h.ne_error_of_not_lost hs hname hlost hty
    exact ⟨ty, htypeOf, hne, hentered ▸ h.canonical hname hty hne⟩
  case distinct =>
    intro m hm n hn heq hne
    obtain ⟨d, hd, hkind⟩ := (mem_declaredNames s.types).mp hm
    obtain ⟨d', hd', hkind'⟩ := (mem_declaredNames s.types).mp hn
    obtain ⟨ty, htypeOf, hty⟩ := h.typeOf? hd
    obtain ⟨ty', htypeOf', hty'⟩ := h.typeOf? hd'
    simp only [typeIn, htypeOf, htypeOf', Option.getD_some] at heq hne
    subst heq
    exact (h.canonical hd hty hne).eq_of_eq (h.canonical hd' hty' hne) hkind hkind'
  case records => exact hentered ▸ h.records_perm
  case arrays => exact hentered ▸ h.arrays_perm

end TigerLang
