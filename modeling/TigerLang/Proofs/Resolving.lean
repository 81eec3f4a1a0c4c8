import Mathlib.Data.List.Forall2
import TigerLang.Proofs.TypeGraph
import TigerLang.Typing.TypeNames

/-! What holds while the type names of a block are looked into: which names have a type already,
and how these types fit the declarations and the registry. -/

namespace TigerLang

/-- What a name stands for in a table. An unknown name stands for the unknown type, and a name that
has not been looked into for none. -/
def Stands (types : Scopes TypeBinding) (name : String) (ty : Ty) : Prop :=
  match types.find? name with
  | none => ty = .error
  | some binding => binding.resolved = some ty

def Scope.resolved? (scope : Scope TypeBinding) (name : String) : Option Ty :=
  (scope.value? name).bind TypeBinding.resolved

/-- The same names with the same definitions, of which more may have a type. -/
structure Refines (scope scope' : Scope TypeBinding) : Prop where
  names : scope'.map Prod.fst = scope.map Prod.fst
  kept : ∀ {name binding}, scope.value? name = some binding →
    ∃ r, scope'.value? name = some { binding with resolved := r } ∧
      ∀ ty, binding.resolved = some ty → r = some ty

namespace Refines
variable {scope scope' scope'' : Scope TypeBinding}

theorem refl (scope : Scope TypeBinding) : Refines scope scope :=
  ⟨rfl, fun {_ binding} h => ⟨binding.resolved, h, fun _ hty => hty⟩⟩

theorem trans (h : Refines scope scope') (h' : Refines scope' scope'') : Refines scope scope'' := by
  refine ⟨h'.names.trans h.names, fun {name binding} hvalue => ?_⟩
  obtain ⟨r, hr, hkept⟩ := h.kept hvalue
  obtain ⟨r', hr', hkept'⟩ := h'.kept hr
  exact ⟨r', hr', fun ty hty => hkept' ty (hkept ty hty)⟩

theorem value?_eq_none_iff (h : Refines scope scope') {name : String} :
    scope'.value? name = none ↔ scope.value? name = none := by
  rw [Scope.value?_eq_none_iff, Scope.value?_eq_none_iff, h.names]

theorem resolved? (h : Refines scope scope') {name : String} {ty : Ty}
    (hty : scope.resolved? name = some ty) : scope'.resolved? name = some ty := by
  obtain ⟨binding, hvalue, hresolved⟩ := Option.bind_eq_some_iff.mp hty
  obtain ⟨r, hr, hkept⟩ := h.kept hvalue
  simp [Scope.resolved?, hr, hkept ty hresolved]

theorem stands (h : Refines scope scope') {outer : Scopes TypeBinding} {name : String} {ty : Ty}
    (hty : Stands (outer.within scope) name ty) : Stands (outer.within scope') name ty := by
  unfold Stands at hty ⊢
  rw [Scopes.find?_within] at hty ⊢
  cases hvalue : scope.value? name with
  | none => rwa [h.value?_eq_none_iff.mpr hvalue, ← hvalue]
  | some binding =>
    obtain ⟨r, hr, hkept⟩ := h.kept hvalue
    simp only [hvalue, hr, Option.some_or] at hty ⊢
    exact hkept ty hty

theorem stands_iff {b : TypeBlock} (h : Refines b.declared scope) {name : String}
    {definition : TypeExp} (hname : b.definition? name = some definition) {ty : Ty} :
    Stands (b.outer.within scope) name ty ↔ scope.resolved? name = some ty := by
  obtain ⟨binding, hvalue, -⟩ := Option.bind_eq_some_iff.mp hname
  obtain ⟨r, hr, -⟩ := h.kept hvalue
  simp [Stands, Scopes.find?_within, Scope.resolved?, hr]

theorem settle {name : String} {binding : TypeBinding} {ty : Ty}
    (hvalue : scope.value? name = some binding)
    (hold : binding.resolved = none ∨ binding.resolved = some ty) :
    Refines scope (scope.bind name { binding with resolved := some ty }) := by
  refine ⟨Scope.map_fst_bind _ (by simp [hvalue]), fun {other old} hother => ?_⟩
  rw [Scope.value?_bind]
  by_cases heq : other = name
  · subst heq
    rw [hvalue] at hother
    cases hother
    refine ⟨some ty, by simp, fun ty' hty' => ?_⟩
    rcases hold with hnone | hsome
    · simp [hnone] at hty'
    · rw [← hsome, hty']
  · exact ⟨old.resolved, by simp [heq, hother], fun _ h => h⟩

end Refines

theorem Scope.resolved?_settle (scope : Scope TypeBinding) (name other : String)
    (binding : TypeBinding) (ty : Ty) :
    (scope.bind name { binding with resolved := some ty }).resolved? other =
      if other = name then some ty else scope.resolved? other := by
  unfold Scope.resolved?
  rw [Scope.value?_bind]
  split <;> rfl

def FieldsStand (types : Scopes TypeBinding) : List Field → List (String × Ty) → Prop :=
  List.Forall₂ fun field typed => typed.1 = field.name ∧ Stands types field.typeName typed.2

theorem getElem?_of_prefix {α : Type} {xs ys : List α} (h : xs <+: ys) {k : Nat} {x : α}
    (hk : xs[k]? = some x) : ys[k]? = some x := by
  obtain ⟨hlt, hx⟩ := List.getElem?_eq_some_iff.mp hk
  rw [← hx]
  exact List.prefix_iff_getElem?.mp h k hlt

structure Registry.Extends (r r' : Registry) : Prop where
  records : r.records.toList <+: r'.records.toList
  arrays : r.arrays.toList <+: r'.arrays.toList

namespace Registry.Extends
variable {r r' r'' : Registry}

theorem refl (r : Registry) : r.Extends r := ⟨List.prefix_rfl, List.prefix_rfl⟩

theorem trans (h : r.Extends r') (h' : r'.Extends r'') : r.Extends r'' :=
  ⟨h.records.trans h'.records, h.arrays.trans h'.arrays⟩

theorem record? (h : r.Extends r') {k : Nat} {record : RecordType}
    (hk : r.records[k]? = some record) : r'.records[k]? = some record := by
  rw [← Array.getElem?_toList] at hk ⊢
  exact getElem?_of_prefix h.records hk

theorem array? (h : r.Extends r') {k : Nat} {array : ArrayType}
    (hk : r.arrays[k]? = some array) : r'.arrays[k]? = some array := by
  rw [← Array.getElem?_toList] at hk ⊢
  exact getElem?_of_prefix h.arrays hk

theorem addRecord (r : Registry) (name : String) : r.Extends (r.addRecord name).2 := by
  refine ⟨?_, List.prefix_rfl⟩
  simp [Registry.addRecord]

theorem addArray (r : Registry) (name : String) (element : Ty) :
    r.Extends (r.addArray name element).2 := by
  refine ⟨List.prefix_rfl, ?_⟩
  simp [Registry.addArray]

end Registry.Extends

/-- The type of a declaration fits its definition. The fields of a record that is still being looked
into are not known yet. New types come after those of the registry `old`. -/
def Fits (types : Scopes TypeBinding) (old registry : Registry) (unfinished : List String)
    (name : String) : TypeExp → Ty → Prop
  | .name _ target, ty => Stands types target ty
  | .array _ element, ty =>
    (ty = .error ∧ Stands types element .error) ∨
      ∃ k elementType, ty = .array k ∧ old.arrays.size ≤ k ∧
        registry.arrays[k]? = some ⟨name, elementType⟩ ∧ elementType ≠ .error ∧
        Stands types element elementType
  | .record _ fields, ty =>
    ∃ k record, ty = .record k ∧ old.records.size ≤ k ∧ registry.records[k]? = some record ∧
      record.name = name ∧ (name ∉ unfinished → record.complete = true ∧
        FieldsStand types (firstNamed Field.name [] fields) record.fields)

/-- The names of a block that have a type have the right one, and the new types of the registry are
those of its declarations. -/
structure Sound (b : TypeBlock) (old : Registry) (unfinished : List String)
    (scope : Scope TypeBinding) (registry : Registry) : Prop where
  fits : ∀ {name definition ty}, b.definition? name = some definition →
    scope.resolved? name = some ty →
    Fits (b.outer.within scope) old registry unfinished name definition ty
  grounded : ∀ {name ty}, scope.resolved? name = some ty → ty ≠ .error → b.Grounded name
  records : ∀ {k}, old.records.size ≤ k → k < registry.records.size →
    ∃ name span fields, b.definition? name = some (.record span fields) ∧
      scope.resolved? name = some (.record k)
  arrays : ∀ {k}, old.arrays.size ≤ k → k < registry.arrays.size →
    ∃ name span element, b.definition? name = some (.array span element) ∧
      scope.resolved? name = some (.array k)
  extends_ : old.Extends registry

theorem Fits.mono {outer : Scopes TypeBinding} {scope scope' : Scope TypeBinding}
    {old registry registry' : Registry} {unfinished unfinished' : List String} {name : String}
    {definition : TypeExp} {ty : Ty} (hscope : Refines scope scope')
    (hregistry : registry.Extends registry') (hsub : unfinished ⊆ unfinished')
    (h : Fits (outer.within scope) old registry unfinished name definition ty) :
    Fits (outer.within scope') old registry' unfinished' name definition ty := by
  cases definition with
  | name span target => exact hscope.stands h
  | array span element =>
    rcases h with ⟨hty, helement⟩ | ⟨k, elementType, hty, hk, harray, hne, helement⟩
    · exact .inl ⟨hty, hscope.stands helement⟩
    · exact .inr ⟨k, elementType, hty, hk, hregistry.array? harray, hne, hscope.stands helement⟩
  | record span fields =>
    obtain ⟨k, record, hty, hk, hrecord, hname, hfields⟩ := h
    refine ⟨k, record, hty, hk, hregistry.record? hrecord, hname, fun hfinished => ?_⟩
    obtain ⟨hcomplete, hstand⟩ := hfields fun hmem => hfinished (hsub hmem)
    exact ⟨hcomplete, hstand.imp fun _ _ hfield => ⟨hfield.1, hscope.stands hfield.2⟩⟩

namespace Sound
variable {b : TypeBlock} {old registry : Registry} {unfinished : List String}
  {scope : Scope TypeBinding}

theorem grounded_of_stands (h : Sound b old unfinished scope registry)
    (hscope : Refines b.declared scope) {name : String} {ty : Ty}
    (hty : Stands (b.outer.within scope) name ty) (hne : ty ≠ .error) : b.Grounded name := by
  unfold Stands at hty
  rw [Scopes.find?_within] at hty
  cases hvalue : scope.value? name with
  | some binding =>
    simp only [hvalue, Option.some_or] at hty
    exact h.grounded (by simp [Scope.resolved?, hvalue, hty]) hne
  | none =>
    simp only [hvalue, Option.none_or] at hty
    split at hty
    · exact absurd hty hne
    · next binding hfind =>
      exact .outer (hscope.value?_eq_none_iff.mp hvalue) hfind hty hne

theorem ne_error_of_grounded (h : Sound b old unfinished scope registry)
    (hscope : Refines b.declared scope) {name : String} (hname : b.Grounded name) :
    ∀ {ty}, Stands (b.outer.within scope) name ty → ty ≠ .error := by
  induction hname with
  | @outer name binding ty hnone hfind hresolved hne =>
    intro ty' hty
    unfold Stands at hty
    rw [Scopes.find?_within, hscope.value?_eq_none_iff.mpr hnone, Option.none_or, hfind] at hty
    have heq : some ty = some ty' := hresolved.symm.trans hty
    exact Option.some.inj heq ▸ hne
  | @record name span fields hdefinition =>
    intro ty hty
    obtain ⟨k, _, hk, _⟩ := h.fits hdefinition ((hscope.stands_iff hdefinition).mp hty)
    simp [hk]
  | @step name target hnext htarget ih =>
    intro ty hty
    obtain ⟨definition, hdefinition, hkind⟩ := TypeBlock.declared_of_next? hnext
    have hfits := h.fits hdefinition ((hscope.stands_iff hdefinition).mp hty)
    cases definition with
    | name span m =>
      obtain rfl : m = target := by simpa [TypeBlock.next?, hdefinition] using hnext
      exact ih hfits
    | array span m =>
      obtain rfl : m = target := by simpa [TypeBlock.next?, hdefinition] using hnext
      rcases hfits with ⟨-, herror⟩ | ⟨k, _, hk, _⟩
      · exact absurd rfl (ih herror)
      · simp [hk]
    | record span fields => simp [TypeExp.isRecord] at hkind

theorem settle (h : Sound b old unfinished scope registry) {name : String} {binding : TypeBinding}
    {definition : TypeExp} {ty : Ty} {registry' : Registry} {unfinished' : List String}
    (hname : b.definition? name = some definition)
    (hvalue : scope.value? name = some binding) (hopen : binding.resolved = none)
    (hregistry : registry.Extends registry') (hsub : unfinished ⊆ unfinished')
    (hrecords : ∀ {k}, registry.records.size ≤ k → k < registry'.records.size →
      definition.isRecord ∧ ty = .record k)
    (harrays : ∀ {k}, registry.arrays.size ≤ k → k < registry'.arrays.size →
      (∃ span element, definition = .array span element) ∧ ty = .array k)
    (hfits : Fits (b.outer.within scope) old registry' unfinished' name definition ty)
    (hground : ty ≠ .error → b.Grounded name) :
    Sound b old unfinished' (scope.bind name { binding with resolved := some ty }) registry' := by
  have hscope : Refines scope (scope.bind name { binding with resolved := some ty }) :=
    Refines.settle hvalue (.inl hopen)
  have hself : (scope.bind name { binding with resolved := some ty }).resolved? name = some ty := by
    simp [Scope.resolved?_settle]
  constructor
  case fits =>
    intro other otherDefinition otherType hother hresolved
    rw [Scope.resolved?_settle] at hresolved
    split at hresolved
    · next heq =>
      subst heq
      cases hresolved
      rw [hname] at hother
      cases hother
      exact hfits.mono hscope (.refl _) (List.Subset.refl _)
    · exact (h.fits hother hresolved).mono hscope hregistry hsub
  case grounded =>
    intro other otherType hresolved hne
    rw [Scope.resolved?_settle] at hresolved
    split at hresolved
    · next heq =>
      cases hresolved
      exact heq ▸ hground hne
    · exact h.grounded hresolved hne
  case records =>
    intro k hold hk
    by_cases hnew : k < registry.records.size
    · obtain ⟨n, span, fields, hn, hty⟩ := h.records hold hnew
      exact ⟨n, span, fields, hn, hscope.resolved? hty⟩
    · obtain ⟨hkind, rfl⟩ := hrecords (Nat.le_of_not_lt hnew) hk
      cases definition with
      | record span fields => exact ⟨name, span, fields, hname, hself⟩
      | name span target => simp [TypeExp.isRecord] at hkind
      | array span element => simp [TypeExp.isRecord] at hkind
  case arrays =>
    intro k hold hk
    by_cases hnew : k < registry.arrays.size
    · obtain ⟨n, span, element, hn, hty⟩ := h.arrays hold hnew
      exact ⟨n, span, element, hn, hscope.resolved? hty⟩
    · obtain ⟨⟨span, element, rfl⟩, rfl⟩ := harrays (Nat.le_of_not_lt hnew) hk
      exact ⟨name, span, element, hname, hself⟩
  case extends_ => exact h.extends_.trans hregistry

theorem settleKnown (h : Sound b old unfinished scope registry) {name : String}
    {binding : TypeBinding} {definition : TypeExp} {ty : Ty}
    (hname : b.definition? name = some definition)
    (hvalue : scope.value? name = some binding) (hopen : binding.resolved = none)
    (hfits : Fits (b.outer.within scope) old registry unfinished name definition ty)
    (hground : ty ≠ .error → b.Grounded name) :
    Sound b old unfinished (scope.bind name { binding with resolved := some ty }) registry :=
  h.settle hname hvalue hopen (.refl _) (List.Subset.refl _)
    (fun hle hlt => absurd hlt (Nat.not_lt.mpr hle))
    (fun hle hlt => absurd hlt (Nat.not_lt.mpr hle)) hfits hground

theorem settleArray (h : Sound b old unfinished scope registry) {name element : String}
    {binding : TypeBinding} {span : Span} {elementType : Ty}
    (hname : b.definition? name = some (.array span element))
    (hvalue : scope.value? name = some binding) (hopen : binding.resolved = none)
    (helement : Stands (b.outer.within scope) element elementType) (hne : elementType ≠ .error)
    (hground : b.Grounded name) :
    Sound b old unfinished
      (scope.bind name { binding with resolved := some (.array registry.arrays.size) })
      (registry.addArray name elementType).2 := by
  have hle : old.arrays.size ≤ registry.arrays.size := by
    simpa using h.extends_.arrays.length_le
  refine h.settle hname hvalue hopen (.addArray _ _ _) (List.Subset.refl _)
    (fun hle hlt => absurd hlt (Nat.not_lt.mpr hle)) (fun {k} hk hlt => ?_)
    (.inr ⟨_, elementType, rfl, hle, by simp [Registry.addArray], hne, helement⟩)
    fun _ => hground
  have hsize : k < registry.arrays.size + 1 := by simpa [Registry.addArray] using hlt
  obtain rfl : k = registry.arrays.size := by omega
  exact ⟨⟨span, element, rfl⟩, rfl⟩

theorem openRecord (h : Sound b old unfinished scope registry) {name : String}
    {binding : TypeBinding} {span : Span} {fields : List Field}
    (hname : b.definition? name = some (.record span fields))
    (hvalue : scope.value? name = some binding) (hopen : binding.resolved = none) :
    Sound b old (name :: unfinished)
      (scope.bind name { binding with resolved := some (.record registry.records.size) })
      (registry.addRecord name).2 := by
  have hle : old.records.size ≤ registry.records.size := by
    simpa using h.extends_.records.length_le
  refine h.settle hname hvalue hopen (.addRecord _ _) (List.subset_cons_self _ _)
    (fun {k} hk hlt => ?_) (fun hle hlt => absurd hlt (Nat.not_lt.mpr hle))
    ⟨_, ⟨name, [], false⟩, rfl, hle, by simp [Registry.addRecord], rfl, fun hmem => ?_⟩
    fun _ => .record hname
  · have hsize : k < registry.records.size + 1 := by simpa [Registry.addRecord] using hlt
    obtain rfl : k = registry.records.size := by omega
    exact ⟨rfl, rfl⟩
  · exact absurd List.mem_cons_self hmem

theorem record?_fillRecord (registry : Registry) (id k : Nat) (fields : List (String × Ty)) :
    (registry.fillRecord id fields).records[k]? =
      if id = k then (registry.records[k]?).map fun record => { record with fields, complete := true }
      else registry.records[k]? := by
  simp [Registry.fillRecord, Array.getElem?_modify]

theorem finishRecord {name : String} (h : Sound b old (name :: unfinished) scope registry)
    {id : Nat} {span : Span} {fields : List Field} {found : List (String × Ty)}
    (hname : b.definition? name = some (.record span fields))
    (hid : scope.resolved? name = some (.record id))
    (hfound : FieldsStand (b.outer.within scope) (firstNamed Field.name [] fields) found) :
    Sound b old unfinished scope (registry.fillRecord id found) := by
  obtain ⟨_, record, hty, hold, hrecord, hrecordName, -⟩ := h.fits hname hid
  cases hty
  have hsize : (registry.fillRecord id found).records.size = registry.records.size := by
    simp [Registry.fillRecord]
  constructor
  case fits =>
    intro other definition ty hother hty
    have hfits := h.fits hother hty
    cases definition with
    | name span target => exact hfits
    | array span element => exact hfits
    | record span' fields' =>
      obtain ⟨k, r, rfl, hk, hr, hrname, hrest⟩ := hfits
      by_cases heq : other = name
      · subst heq
        rw [hname] at hother
        cases hother
        rw [hid] at hty
        cases hty
        refine ⟨id, { record with fields := found, complete := true }, rfl, hk, ?_, hrecordName,
          fun _ => ⟨rfl, hfound⟩⟩
        rw [record?_fillRecord, if_pos rfl, hrecord]
        rfl
      · have hne : id ≠ k := by
          rintro rfl
          rw [hrecord] at hr
          cases hr
          exact heq (hrname.symm.trans hrecordName)
        refine ⟨k, r, rfl, hk, ?_, hrname, fun hmem => hrest ?_⟩
        · rwa [record?_fillRecord, if_neg hne]
        · simp [heq, hmem]
  case grounded => exact h.grounded
  case records =>
    intro k hle hlt
    exact h.records hle (hsize ▸ hlt)
  case arrays => exact h.arrays
  case extends_ =>
    refine ⟨List.prefix_iff_getElem?.mpr fun k hk => ?_, h.extends_.arrays⟩
    have hlt : k < old.records.size := by simpa using hk
    have hkeep := List.prefix_iff_getElem?.mp h.extends_.records k hk
    rw [Array.getElem?_toList] at hkeep ⊢
    rwa [record?_fillRecord, if_neg (by omega)]

theorem settleLoop (h : Sound b old unfinished scope registry) {scope' : Scope TypeBinding}
    {loop : List String} (hdeclared : Refines b.declared scope) (hscope : Refines scope scope')
    (hloop : ∀ name ∈ loop, ∃ target ∈ loop, b.next? name = some target)
    (hresolved : ∀ name, scope'.resolved? name =
      if name ∈ loop then some .error else scope.resolved? name) :
    Sound b old unfinished scope' registry := by
  have hdeclared' := hdeclared.trans hscope
  have hstands : ∀ name ∈ loop, Stands (b.outer.within scope') name .error := by
    intro name hmem
    obtain ⟨target, -, hnext⟩ := hloop name hmem
    obtain ⟨definition, hdefinition, -⟩ := TypeBlock.declared_of_next? hnext
    rw [hdeclared'.stands_iff hdefinition, hresolved, if_pos hmem]
  constructor
  case fits =>
    intro name definition ty hname hty
    rw [hresolved] at hty
    split at hty
    · next hmem =>
      cases hty
      obtain ⟨target, htarget, hnext⟩ := hloop name hmem
      cases definition with
      | name span m =>
        obtain rfl : m = target := by simpa [TypeBlock.next?, hname] using hnext
        exact hstands m htarget
      | array span m =>
        obtain rfl : m = target := by simpa [TypeBlock.next?, hname] using hnext
        exact .inl ⟨rfl, hstands m htarget⟩
      | record span fields => simp [TypeBlock.next?, hname] at hnext
    · exact (h.fits hname hty).mono hscope (.refl _) (List.Subset.refl _)
  case grounded =>
    intro name ty hty hne
    rw [hresolved] at hty
    split at hty
    · exact absurd (Option.some.inj hty).symm hne
    · exact h.grounded hty hne
  case records =>
    intro k hle hlt
    obtain ⟨name, span, fields, hname, hty⟩ := h.records hle hlt
    exact ⟨name, span, fields, hname, hscope.resolved? hty⟩
  case arrays =>
    intro k hle hlt
    obtain ⟨name, span, element, hname, hty⟩ := h.arrays hle hlt
    exact ⟨name, span, element, hname, hscope.resolved? hty⟩
  case extends_ => exact h.extends_

end Sound

end TigerLang
