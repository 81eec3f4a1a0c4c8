import TigerLang.Proofs.Acceptance

/-! The types of a block. Looking into its type names reports nothing exactly when the declarations
are well formed, and then each record and each array has a new type to represent it. -/

namespace TigerLang

theorem value?_firstNamed {α : Type} (seen : List String) (entries : Scope α) (name : String) :
    Scope.value? (firstNamed Prod.fst seen entries) name =
      if name ∈ seen then none else entries.value? name := by
  induction entries generalizing seen with
  | nil => simp [firstNamed]
  | cons entry entries ih =>
    obtain ⟨other, value⟩ := entry
    rw [firstNamed, Scope.value?_cons]
    by_cases hname : name = other
    · subst hname
      split
      · next hmem => rw [ih, if_pos hmem]
      · simp [Scope.value?_cons]
    · rw [if_neg hname]
      split
      · exact ih seen
      · rw [Scope.value?_cons, if_neg hname, ih]
        simp [hname]

theorem value?_typeEntries (decs : List Dec) (name : String) :
    (typeEntries decs).value? name =
      (typeDec? decs name).map fun dec => ⟨some dec.2, none, dec.1.span.start⟩ := by
  induction decs with
  | nil => rfl
  | cons d decs ih =>
    cases d with
    | var node other typeName init => exact ih
    | function node other params result body => exact ih
    | type node other definition =>
      have hentries : typeEntries (.type node other definition :: decs) =
          (other, ⟨some definition, none, node.span.start⟩) :: typeEntries decs := rfl
      have hdec : typeDec? (.type node other definition :: decs) name =
          if other = name then some (node, definition) else typeDec? decs name := by
        rw [typeDec?, List.findSome?_cons]
        split <;> simp_all [typeDec?]
      rw [hentries, Scope.value?_cons, hdec, ih]
      by_cases hname : name = other
      · simp [hname]
      · rw [if_neg hname, if_neg fun heq => hname heq.symm]

theorem definition?_eq (outer : Scopes TypeBinding) (decs : List Dec) (name : String) :
    TypeBlock.definition? ⟨outer, declaredTypes decs⟩ name = (typeDec? decs name).map Prod.snd := by
  rw [TypeBlock.definition?, declaredTypes, value?_firstNamed, if_neg (List.not_mem_nil),
    value?_typeEntries]
  cases typeDec? decs name <;> rfl

theorem definition?_eq_some_iff {outer : Scopes TypeBinding} {decs : List Dec} {name : String}
    {definition : TypeExp} :
    TypeBlock.definition? ⟨outer, declaredTypes decs⟩ name = some definition ↔
      ∃ node, typeDec? decs name = some (node, definition) := by
  simp [definition?_eq]

theorem value?_declaredTypes_eq_none_iff {decs : List Dec} {name : String} :
    (declaredTypes decs).value? name = none ↔ typeDec? decs name = none := by
  simp [declaredTypes, value?_firstNamed, value?_typeEntries]

theorem typeNames_eq (decs : List Dec) : typeNames decs = (typeEntries decs).map Prod.fst := by
  induction decs with
  | nil => rfl
  | cons d decs ih =>
    cases d with
    | var node other typeName init => exact ih
    | function node other params result body => exact ih
    | type node other definition => exact congrArg (other :: ·) ih

section block
variable {blocks : List (List Dec)} {rep : Rep} {outer : Scopes TypeBinding} {decs : List Dec}
  {registry : Registry}

theorem TypesMatch.ne_error (h : TypesMatch blocks rep outer) (hfaithful : Faithful registry rep)
    {name : String} {ty : Ty} (hty : typeOf? outer name = some ty) : ty ≠ .error := by
  obtain ⟨τ, hτ⟩ := h.denoted hty
  obtain ⟨ty', hty', hrep⟩ := h.found hτ
  obtain rfl := Option.some.inj (hty.symm.trans hty')
  exact hfaithful.ne_error hrep

theorem TypesMatch.grounded_iff (h : TypesMatch blocks rep outer)
    (hfaithful : Faithful registry rep) {name : String} :
    TypeBlock.Grounded ⟨outer, declaredTypes decs⟩ name ↔ ∃ τ, Denotes (decs :: blocks) name τ := by
  constructor
  · intro hground
    induction hground with
    | @outer name binding ty hnone hfind hty _ =>
      obtain ⟨τ, hτ⟩ := h.denoted (Option.bind_eq_some_iff.mpr ⟨binding, hfind, hty⟩)
      exact ⟨τ, .outer (value?_declaredTypes_eq_none_iff.mp hnone) hτ⟩
    | @record name span fields hdefinition =>
      obtain ⟨node, hdec⟩ := definition?_eq_some_iff.mp hdefinition
      exact ⟨_, .record hdec⟩
    | @step name target hnext _ ih =>
      obtain ⟨τ, hτ⟩ := ih
      rw [TypeBlock.next?, definition?_eq] at hnext
      cases hdec : typeDec? decs name with
      | none => simp [hdec] at hnext
      | some dec =>
        obtain ⟨node, definition⟩ := dec
        rw [hdec] at hnext
        cases definition with
        | name span other =>
          obtain rfl := Option.some.inj hnext
          exact ⟨τ, .name hdec hτ⟩
        | array span other =>
          obtain rfl := Option.some.inj hnext
          exact ⟨_, .array hdec hτ⟩
        | record span fields => cases hnext
  · rintro ⟨τ, hτ⟩
    generalize hblocks : decs :: blocks = all at hτ
    induction hτ with
    | int => cases hblocks
    | string => cases hblocks
    | @outer _ _ name τ hdec hτ _ =>
      obtain ⟨rfl, rfl⟩ := List.cons.inj hblocks
      obtain ⟨ty, hty, hrep⟩ := h.found hτ
      obtain ⟨binding, hfind, hresolved⟩ := Option.bind_eq_some_iff.mp hty
      exact .outer (value?_declaredTypes_eq_none_iff.mpr hdec) hfind hresolved
        (hfaithful.ne_error hrep)
    | @name _ _ name node span target τ hdec _ ih =>
      obtain ⟨rfl, rfl⟩ := List.cons.inj hblocks
      refine .step ?_ (ih rfl)
      rw [TypeBlock.next?, definition?_eq, hdec]
      rfl
    | @array _ _ name node span element τ hdec _ ih =>
      obtain ⟨rfl, rfl⟩ := List.cons.inj hblocks
      refine .step ?_ (ih rfl)
      rw [TypeBlock.next?, definition?_eq, hdec]
      rfl
    | @record _ _ name node span fields hdec =>
      obtain ⟨rfl, rfl⟩ := List.cons.inj hblocks
      exact .record (definition?_eq_some_iff.mpr ⟨node, hdec⟩)

end block

theorem typeDec?_of_mem {decs : List Dec} {name : String} (h : name ∈ typeNames decs) :
    ∃ dec, typeDec? decs name = some dec := by
  have hvalue : (typeEntries decs).value? name ≠ none := by
    rwa [ne_eq, Scope.value?_eq_none_iff, not_not, ← typeNames_eq]
  rw [value?_typeEntries, ne_eq, Option.map_eq_none_iff] at hvalue
  exact Option.ne_none_iff_exists'.mp hvalue

theorem mem_typeNames {decs : List Dec} {name : String} {dec : Node × TypeExp}
    (h : typeDec? decs name = some dec) : name ∈ typeNames decs := by
  have hvalue : (typeEntries decs).value? name ≠ none := by simp [value?_typeEntries, h]
  rwa [ne_eq, Scope.value?_eq_none_iff, not_not, ← typeNames_eq] at hvalue

theorem typesFormed_iff {Γ : Context} {rep : Rep} {s : Checker} (h : Models Γ rep s)
    (decs : List Dec) :
    ((CheckM.declareTypes decs >>= CheckM.resolveTypes).run s.entered).2.diagnostics =
      s.diagnostics ↔ TypesFormed Γ.blocks decs := by
  obtain ⟨scope, hsettled⟩ :=
    CheckM.declareTypes_resolveTypes h.resolved (s := s.entered) rfl decs
  have hfaithful := h.sane.faithful
  have hsound := hsettled.resolving.sound
  have hground : ∀ {name}, TypeBlock.Grounded ⟨s.types, declaredTypes decs⟩ name ↔
      ∃ τ, Denotes (decs :: Γ.blocks) name τ := h.types.grounded_iff hfaithful
  have hdefinition : ∀ {name node definition}, typeDec? decs name = some (node, definition) →
      TypeBlock.definition? ⟨s.types, declaredTypes decs⟩ name = some definition :=
    fun hdec => definition?_eq_some_iff.mpr ⟨_, hdec⟩
  constructor
  · intro hsilent
    have hclean : TypeBlock.Clean ⟨s.types, declaredTypes decs⟩ := by
      intro name binding hfind herror
      exact h.types.ne_error hfaithful (Option.bind_eq_some_iff.mpr ⟨binding, hfind, herror⟩) rfl
    have hfaultless := hsettled.resolving.faultless hclean hsilent
    refine ⟨typeNames_eq decs ▸ hsettled.distinct hsilent, fun name hname => ?_,
      fun {name node span fields} hdec => ?_⟩
    · obtain ⟨dec, hdec⟩ := typeDec?_of_mem hname
      obtain ⟨ty, -, hty⟩ := hsettled.typeOf? (hdefinition hdec)
      refine hground.mp (hsound.grounded hty ?_)
      rintro rfl
      exact hfaultless.types name hty
    · obtain ⟨ty, -, hty⟩ := hsettled.typeOf? (hdefinition hdec)
      obtain ⟨hnodup, hstand⟩ := hfaultless.fields (hdefinition hdec) List.not_mem_nil
        (Option.isSome_iff_exists.mpr ⟨ty, hty⟩)
      refine ⟨hnodup, fun field hfield => ?_⟩
      obtain ⟨fieldType, hstands, hne⟩ := hstand field hfield
      exact hground.mp (hsound.grounded_of_stands hsettled.resolving.refines hstands hne)
  · intro hformed
    refine hsettled.quiet (typeNames_eq decs ▸ hformed.distinct) ?_ fun entry hentry => ?_
    · intro name span fields hrecord
      obtain ⟨node, hdec⟩ := definition?_eq_some_iff.mp hrecord
      obtain ⟨hnodup, hfields⟩ := hformed.fields hdec
      exact ⟨hnodup, fun field hfield => hground.mpr (hfields field hfield)⟩
    · refine hground.mpr (hformed.denote entry.1 ?_)
      rw [typeNames_eq]
      exact List.mem_map_of_mem hentry

inductive Makes (blocks : List (List Dec)) (decs : List Dec) : String → SiteType → Prop
  | record {name node span fields} (h : typeDec? decs name = some (node, .record span fields)) :
      Makes blocks decs name (.record ⟨node, name, decs :: blocks⟩ fields)
  | array {name node span element} (h : typeDec? decs name = some (node, .array span element)) :
      Makes blocks decs name (.array ⟨node, name, decs :: blocks⟩ element)

def Rep.withBlock (rep : Rep) (blocks : List (List Dec)) (decs : List Dec)
    (types : Scopes TypeBinding) : Rep :=
  fun τ ty => rep τ ty ∨ ∃ name, Makes blocks decs name τ ∧ typeOf? types name = some ty

def typeIds (decs : List Dec) : List Nat :=
  decs.filterMap fun
    | .type node _ _ => some node.id
    | _ => none

theorem typeDec?_mem {decs : List Dec} {name : String} {node : Node} {definition : TypeExp}
    (h : typeDec? decs name = some (node, definition)) : node.id ∈ typeIds decs := by
  obtain ⟨d, hd, hname⟩ := List.exists_of_findSome?_eq_some h
  refine List.mem_filterMap.mpr ⟨d, hd, ?_⟩
  cases d with
  | type other n d =>
    simp only [Option.ite_none_right_eq_some, Option.some.injEq, Prod.mk.injEq] at hname
    rw [hname.2.1]
  | var => simp at hname
  | function => simp at hname

section makes
variable {blocks : List (List Dec)} {decs : List Dec} {name name' : String} {τ τ' : SiteType}

theorem Makes.id? (h : Makes blocks decs name τ) : ∃ id ∈ typeIds decs, τ.id? = some id := by
  cases h with
  | record h => exact ⟨_, typeDec?_mem h, rfl⟩
  | array h => exact ⟨_, typeDec?_mem h, rfl⟩

theorem Makes.name_eq (h : Makes blocks decs name τ) (h' : Makes blocks decs name' τ) :
    name = name' := by
  cases h with
  | record h => cases h'; rfl
  | array h => cases h'; rfl

theorem Makes.unique (h : Makes blocks decs name τ) (h' : Makes blocks decs name τ') : τ = τ' := by
  cases h with
  | record h => cases h' with
    | record h' => simp_all
    | array h' => simp_all
  | array h => cases h' with
    | record h' => simp_all
    | array h' => simp_all

theorem Rep.withBlock_extends (rep : Rep) (types : Scopes TypeBinding) :
    rep.Extends (rep.withBlock blocks decs types) (typeIds decs) where
  le := .inl
  new hty := hty.imp_right fun ⟨_, hmakes, _⟩ => hmakes.id?

end makes

/-- The table `types` has the types of a well-formed block inside the table `outer`. New types are
those of its records and arrays. -/
structure BlockTypes (decs : List Dec) (outer types : Scopes TypeBinding)
    (old registry : Registry) : Prop where
  outside : ∀ {name}, typeDec? decs name = none → typeOf? types name = typeOf? outer name
  canonical : ∀ {name node definition}, typeDec? decs name = some (node, definition) →
    ∃ ty, typeOf? types name = some ty ∧ ty ≠ .error ∧
      Canonical types old registry name definition ty
  extends_ : old.Extends registry
  records : ∀ {k}, old.records.size ≤ k → k < registry.records.size → ∃ name node span fields,
    typeDec? decs name = some (node, .record span fields) ∧ typeOf? types name = some (.record k)
  arrays : ∀ {k}, old.arrays.size ≤ k → k < registry.arrays.size → ∃ name node span element,
    typeDec? decs name = some (node, .array span element) ∧ typeOf? types name = some (.array k)

theorem CheckM.TypesSettled.blockTypes {outer : Scopes TypeBinding} {decs : List Dec}
    {s s' : Checker} {scope : Scope TypeBinding} (h : TypesSettled outer decs s s' scope)
    (houter : AllResolved outer)
    (hground : ∀ name ∈ typeNames decs, TypeBlock.Grounded ⟨outer, declaredTypes decs⟩ name) :
    BlockTypes decs outer s'.types s.registry s'.registry where
  outside {name} hdec := by
    have hnone := h.resolving.refines.value?_eq_none_iff.mpr
      (value?_declaredTypes_eq_none_iff.mpr hdec)
    rw [TigerLang.typeOf?, TigerLang.typeOf?, h.resolving.types, Scopes.find?_within, hnone,
      Option.none_or]
  canonical {name node definition} hdec := by
    have hdefinition : TypeBlock.definition? ⟨outer, declaredTypes decs⟩ name = some definition :=
      definition?_eq_some_iff.mpr ⟨node, hdec⟩
    obtain ⟨ty, htypeOf, hty⟩ := h.typeOf? hdefinition
    have hlost : ¬ TypeBlock.Lost ⟨outer, declaredTypes decs⟩ name := by
      rw [TypeBlock.lost_iff_not_grounded (declaredTypes_unresolved houter decs), not_not]
      exact hground name (mem_typeNames hdec)
    have hne := h.ne_error_of_not_lost houter hdefinition hlost hty
    exact ⟨ty, htypeOf, hne, h.canonical hdefinition hty hne⟩
  extends_ := h.resolving.sound.extends_
  records hle hlt := by
    obtain ⟨name, span, fields, hdefinition, hk⟩ := h.resolving.sound.records hle hlt
    obtain ⟨ty, htypeOf, hty⟩ := h.typeOf? hdefinition
    obtain rfl := Option.some.inj (hk.symm.trans hty)
    obtain ⟨node, hdec⟩ := definition?_eq_some_iff.mp hdefinition
    exact ⟨name, node, span, fields, hdec, htypeOf⟩
  arrays hle hlt := by
    obtain ⟨name, span, element, hdefinition, hk⟩ := h.resolving.sound.arrays hle hlt
    obtain ⟨ty, htypeOf, hty⟩ := h.typeOf? hdefinition
    obtain rfl := Option.some.inj (hk.symm.trans hty)
    obtain ⟨node, hdec⟩ := definition?_eq_some_iff.mp hdefinition
    exact ⟨name, node, span, element, hdec, htypeOf⟩

namespace BlockTypes
variable {decs : List Dec} {outer types : Scopes TypeBinding} {old registry : Registry}
  {blocks : List (List Dec)} {rep : Rep}

theorem typesMatch (h : BlockTypes decs outer types old registry)
    (houter : TypesMatch blocks rep outer) (hformed : TypesFormed blocks decs) :
    TypesMatch (decs :: blocks) (rep.withBlock blocks decs types) types where
  found {name τ} hτ := by
    generalize hblocks : decs :: blocks = all at hτ
    induction hτ with
    | int => cases hblocks
    | string => cases hblocks
    | outer hdec hτ _ =>
      obtain ⟨rfl, rfl⟩ := List.cons.inj hblocks
      obtain ⟨ty, hty, hrep⟩ := houter.found hτ
      exact ⟨ty, (h.outside hdec).trans hty, .inl hrep⟩
    | @name _ _ name node span target τ hdec _ ih =>
      obtain ⟨rfl, rfl⟩ := List.cons.inj hblocks
      obtain ⟨ty, hty, hrep⟩ := ih rfl
      obtain ⟨ty', hty', -, heq⟩ := h.canonical hdec
      obtain rfl : ty' = ty := by simpa [Canonical, typeIn, hty] using heq
      exact ⟨ty', hty', hrep⟩
    | @array _ _ name node span element τ hdec _ _ =>
      obtain ⟨rfl, rfl⟩ := List.cons.inj hblocks
      obtain ⟨ty, hty, -, -⟩ := h.canonical hdec
      exact ⟨ty, hty, .inr ⟨name, .array hdec, hty⟩⟩
    | @record _ _ name node span fields hdec =>
      obtain ⟨rfl, rfl⟩ := List.cons.inj hblocks
      obtain ⟨ty, hty, -, -⟩ := h.canonical hdec
      exact ⟨ty, hty, .inr ⟨name, .record hdec, hty⟩⟩
  denoted {name ty} hty := by
    cases hdec : typeDec? decs name with
    | none =>
      rw [h.outside hdec] at hty
      obtain ⟨τ, hτ⟩ := houter.denoted hty
      exact ⟨τ, .outer hdec hτ⟩
    | some dec => exact hformed.denote name (mem_typeNames hdec)

theorem canonical_of_makes (h : BlockTypes decs outer types old registry) {name : String}
    {τ : SiteType} {ty : Ty} (hmakes : Makes blocks decs name τ)
    (hty : typeOf? types name = some ty) :
    ∃ node definition, typeDec? decs name = some (node, definition) ∧
      (definition.isRecord || definition.isArray) = true ∧
      Canonical types old registry name definition ty := by
  cases hmakes with
  | record hdec =>
    obtain ⟨ty', hty', -, hcanonical⟩ := h.canonical hdec
    obtain rfl := Option.some.inj (hty.symm.trans hty')
    exact ⟨_, _, hdec, rfl, hcanonical⟩
  | array hdec =>
    obtain ⟨ty', hty', -, hcanonical⟩ := h.canonical hdec
    obtain rfl := Option.some.inj (hty.symm.trans hty')
    exact ⟨_, _, hdec, rfl, hcanonical⟩

theorem not_rep_of_makes (h : BlockTypes decs outer types old registry) (hold : Faithful old rep)
    {name : String} {τ σ : SiteType} {ty : Ty} (hmakes : Makes blocks decs name τ)
    (hty : typeOf? types name = some ty) : ¬ rep σ ty := by
  intro hrep
  obtain ⟨node, definition, -, hkind, hcanonical⟩ := h.canonical_of_makes hmakes hty
  cases definition with
  | name span target => cases hkind
  | record span fields =>
    obtain ⟨k, rfl, hle, -⟩ := hcanonical
    obtain ⟨site, fields, rfl⟩ := hold.exists_record hrep
    obtain ⟨_, typed, heq, hk, -⟩ := hold.record hrep
    cases heq
    obtain ⟨hlt, -⟩ := Array.getElem?_eq_some_iff.mp hk
    omega
  | array span element =>
    obtain ⟨k, rfl, hle, -⟩ := hcanonical
    obtain ⟨site, element, rfl⟩ := hold.exists_array hrep
    obtain ⟨_, ε, elementType, heq, hk, -⟩ := hold.array hrep
    cases heq
    obtain ⟨hlt, -⟩ := Array.getElem?_eq_some_iff.mp hk
    omega

theorem record_of_makes (h : BlockTypes decs outer types old registry)
    (houter : TypesMatch blocks rep outer) (hformed : TypesFormed blocks decs) {name : String}
    {site : Site} {fields : List Field} {ty : Ty}
    (hmakes : Makes blocks decs name (.record site fields)) (hty : typeOf? types name = some ty) :
    ∃ k typed, ty = .record k ∧ registry.records[k]? = some ⟨site.name, typed, true⟩ ∧
      FieldsRepresented (rep.withBlock blocks decs types) site.blocks fields typed := by
  cases hmakes with
  | record hdec =>
    obtain ⟨ty', hty', -, k, rfl, -, hk⟩ := h.canonical hdec
    obtain rfl := Option.some.inj (hty.symm.trans hty')
    obtain ⟨hnodup, hfields⟩ := hformed.fields hdec
    -- No field is dropped, since no two have one name.
    rw [firstNamed_eq_self hnodup (by simp)] at hk
    refine ⟨k, _, rfl, hk, ?_⟩
    rw [FieldsRepresented, List.forall₂_map_right_iff, List.forall₂_same]
    intro field hfield
    obtain ⟨τ, hτ⟩ := hfields field hfield
    obtain ⟨fieldType, hfieldType, hrep⟩ := (h.typesMatch houter hformed).found hτ
    refine ⟨rfl, τ, hτ, ?_⟩
    rwa [typeIn, hfieldType]

theorem array_of_makes (h : BlockTypes decs outer types old registry)
    (houter : TypesMatch blocks rep outer) (hformed : TypesFormed blocks decs)
    {name element : String} {site : Site} {ty : Ty}
    (hmakes : Makes blocks decs name (.array site element)) (hty : typeOf? types name = some ty) :
    ∃ k ε elementType, ty = .array k ∧ registry.arrays[k]? = some ⟨site.name, elementType⟩ ∧
      Denotes site.blocks element ε ∧ rep.withBlock blocks decs types ε elementType := by
  cases hmakes with
  | array hdec =>
    obtain ⟨ty', hty', -, k, rfl, -, hk⟩ := h.canonical hdec
    obtain rfl := Option.some.inj (hty.symm.trans hty')
    obtain ⟨τ, hτ⟩ := hformed.denote name (mem_typeNames hdec)
    rw [denotes_cons, hdec] at hτ
    obtain ⟨-, ε, hε⟩ := hτ
    obtain ⟨elementType, helement, hrep⟩ := (h.typesMatch houter hformed).found hε
    refine ⟨k, ε, _, rfl, hk, hε, ?_⟩
    rwa [typeIn, helement]

theorem faithful (h : BlockTypes decs outer types old registry) (hold : Faithful old rep)
    (houter : TypesMatch blocks rep outer) (hformed : TypesFormed blocks decs)
    (hapart : rep.Apart (typeIds decs)) : Faithful registry (rep.withBlock blocks decs types) where
  int := .inl hold.int
  string := .inl hold.string
  void := .inl hold.void
  nil := .inl hold.nil
  functional {τ ty ty'} hty hty' := by
    -- A type of the block has the number of its declaration, which no older one has.
    rcases hty with hty | ⟨name, hmakes, hty⟩ <;> rcases hty' with hty' | ⟨name', hmakes', hty'⟩
    · exact hold.functional hty hty'
    · obtain ⟨id, hid, heq⟩ := hmakes'.id?
      exact absurd hid (hapart hty heq)
    · obtain ⟨id, hid, heq⟩ := hmakes.id?
      exact absurd hid (hapart hty' heq)
    · obtain rfl := hmakes.name_eq hmakes'
      exact Option.some.inj (hty.symm.trans hty')
  injective {τ τ' ty} hty hty' := by
    rcases hty with hty | ⟨name, hmakes, hty⟩ <;> rcases hty' with hty' | ⟨name', hmakes', hty'⟩
    · exact hold.injective hty hty'
    · exact absurd hty (h.not_rep_of_makes hold hmakes' hty')
    · exact absurd hty' (h.not_rep_of_makes hold hmakes hty)
    · obtain ⟨-, d, -, hkind, hcanonical⟩ := h.canonical_of_makes hmakes hty
      obtain ⟨-, d', -, hkind', hcanonical'⟩ := h.canonical_of_makes hmakes' hty'
      obtain rfl := hcanonical.eq_of_eq hcanonical' hkind hkind'
      exact hmakes.unique hmakes'
  record {site fields ty} hty := by
    rcases hty with hty | ⟨name, hmakes, hty⟩
    · obtain ⟨k, typed, rfl, hk, hfields⟩ := hold.record hty
      refine ⟨k, typed, rfl, h.extends_.record? hk, hfields.imp ?_⟩
      rintro field p ⟨hname, τ, hτ, hrep⟩
      exact ⟨hname, τ, hτ, .inl hrep⟩
    · exact h.record_of_makes houter hformed hmakes hty
  array {site element ty} hty := by
    rcases hty with hty | ⟨name, hmakes, hty⟩
    · obtain ⟨k, ε, elementType, rfl, hk, hε, hrep⟩ := hold.array hty
      exact ⟨k, ε, elementType, rfl, h.extends_.array? hk, hε, .inl hrep⟩
    · exact h.array_of_makes houter hformed hmakes hty

theorem clean (h : BlockTypes decs outer types old registry)
    (hfaithful : Faithful registry (rep.withBlock blocks decs types))
    (hrecords : ∀ record ∈ old.records, ∀ field ∈ record.fields, field.2 ≠ .error)
    (harrays : ∀ array ∈ old.arrays, array.element ≠ .error) :
    (∀ record ∈ registry.records, ∀ field ∈ record.fields, field.2 ≠ .error) ∧
      ∀ array ∈ registry.arrays, array.element ≠ .error := by
  constructor
  · intro record hmem field hfield
    obtain ⟨k, hk⟩ := Array.mem_iff_getElem?.mp hmem
    by_cases hlt : k < old.records.size
    · have hold := h.extends_.record? (Array.getElem?_eq_getElem hlt)
      obtain rfl := Option.some.inj (hk.symm.trans hold)
      exact hrecords _ (Array.getElem_mem hlt) field hfield
    · obtain ⟨hsize, -⟩ := Array.getElem?_eq_some_iff.mp hk
      obtain ⟨name, node, span, fields, hdec, hty⟩ := h.records (Nat.le_of_not_lt hlt) hsize
      obtain ⟨_, typed, heq, hk', hfields⟩ := hfaithful.record (.inr ⟨name, .record hdec, hty⟩)
      cases heq
      obtain rfl := Option.some.inj (hk.symm.trans hk')
      exact hfaithful.fields_ne_error hfields field hfield
  · intro array hmem
    obtain ⟨k, hk⟩ := Array.mem_iff_getElem?.mp hmem
    by_cases hlt : k < old.arrays.size
    · have hold := h.extends_.array? (Array.getElem?_eq_getElem hlt)
      obtain rfl := Option.some.inj (hk.symm.trans hold)
      exact harrays _ (Array.getElem_mem hlt)
    · obtain ⟨hsize, -⟩ := Array.getElem?_eq_some_iff.mp hk
      obtain ⟨name, node, span, element, hdec, hty⟩ := h.arrays (Nat.le_of_not_lt hlt) hsize
      obtain ⟨_, ε, elementType, heq, hk', -, hrep⟩ :=
        hfaithful.array (.inr ⟨name, .array hdec, hty⟩)
      cases heq
      obtain rfl := Option.some.inj (hk.symm.trans hk')
      exact hfaithful.ne_error hrep

end BlockTypes

theorem Models.declareTypes {Γ : Context} {rep : Rep} {s : Checker} (h : Models Γ rep s)
    {decs : List Dec} (hformed : TypesFormed Γ.blocks decs) (hapart : rep.Apart (typeIds decs)) :
    let s₀ := ((CheckM.declareTypes decs >>= CheckM.resolveTypes).run s.entered).2
    let rep₀ := rep.withBlock Γ.blocks decs s₀.types
    AllResolved s₀.types ∧ TypesMatch (decs :: Γ.blocks) rep₀ s₀.types ∧ Sane rep₀ s₀ := by
  intro s₀ rep₀
  obtain ⟨scope, hsettled⟩ :=
    CheckM.declareTypes_resolveTypes h.resolved (s := s.entered) rfl decs
  have hfaithful := h.sane.faithful
  have hblock : BlockTypes decs s.types s₀.types s.registry s₀.registry :=
    hsettled.blockTypes h.resolved fun name hname =>
      (h.types.grounded_iff hfaithful).mpr (hformed.denote name hname)
  have hfaithful₀ : Faithful s₀.registry rep₀ := hblock.faithful hfaithful h.types hformed hapart
  obtain ⟨hrecords, harrays⟩ :=
    hblock.clean hfaithful₀ h.sane.clean.records h.sane.clean.arrays
  have helsewhere := hsettled.resolving.elsewhere
  have hfacts : s₀.facts = s.facts := helsewhere.facts
  have hframes : s₀.frames = s.frames := helsewhere.frames
  refine ⟨?_, hblock.typesMatch h.types hformed, hfaithful₀, ?_⟩
  · rw [hsettled.resolving.types]
    exact h.resolved.within hsettled.settled
  · exact ⟨hfacts ▸ h.sane.clean.exps, hfacts ▸ h.sane.clean.vars, hfacts ▸ h.sane.clean.routines,
      hframes ▸ h.sane.clean.slots, hrecords, harrays⟩

end TigerLang
