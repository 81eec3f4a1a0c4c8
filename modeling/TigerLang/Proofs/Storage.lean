import TigerLang.Proofs.Effects

/-! Types that are kept somewhere. Whatever the checker keeps a type in, a record or an array in it
is a registered one, and values are only kept of types that have values. Every write of the checker
preserves this, if what is written has it. -/

namespace TigerLang

def Scopes.All {α : Type} (P : α → Prop) (t : Scopes α) : Prop :=
  ∀ scope ∈ t.scopes, ∀ entry ∈ scope, P entry.2

namespace Scopes.All
variable {α : Type} {P R : α → Prop} {t : Scopes α}

theorem imp (h : t.All P) (himp : ∀ a, P a → R a) : t.All R :=
  fun scope hscope entry hentry => himp _ (h scope hscope entry hentry)

theorem find? (h : t.All P) {name : String} {a : α} (hfind : t.find? name = some a) : P a := by
  obtain ⟨scope, hscope, hentry⟩ := Scopes.mem_of_find? hfind
  exact h scope hscope _ hentry

theorem empty : (Scopes.empty : Scopes α).All P := by
  intro scope hscope entry hentry
  obtain rfl := List.mem_singleton.mp hscope
  cases hentry

theorem enter (h : t.All P) : t.enter.All P := by
  intro scope hscope
  rcases List.mem_cons.mp hscope with rfl | hscope
  · simp
  · exact h scope hscope

theorem leave (h : t.All P) : t.leave.All P := by
  intro scope hscope
  rcases List.mem_append.mp hscope with hinner | hroot
  · exact h scope (List.mem_append_left _ (List.mem_of_mem_tail hinner))
  · exact h scope (List.mem_append_right _ hroot)

theorem scopeBind {scope : Scope α} (h : ∀ entry ∈ scope, P entry.2) {name : String} {a : α}
    (ha : P a) : ∀ entry ∈ scope.bind name a, P entry.2 := by
  intro entry hentry
  rcases Scope.mem_bind hentry with rfl | hold
  · exact ha
  · exact h entry hold

theorem bind (h : t.All P) {name : String} {a : α} (ha : P a) : (t.bind name a).All P := by
  obtain ⟨inner, root⟩ := t
  cases inner with
  | nil =>
    intro scope hscope
    obtain rfl := List.mem_singleton.mp hscope
    exact scopeBind (h root List.mem_cons_self) ha
  | cons first outer =>
    intro scope hscope
    rcases List.mem_cons.mp hscope with rfl | hscope
    · exact scopeBind (h first List.mem_cons_self) ha
    · exact h scope (List.mem_cons_of_mem _ hscope)

theorem changeScopes {name : String} {f : α → α} (hf : ∀ a, P a → P (f a))
    {scopes scopes' : List (Scope α)} (h : ∀ scope ∈ scopes, ∀ entry ∈ scope, P entry.2)
    (hchange : Scopes.changeScopes name f scopes = some scopes') :
    ∀ scope ∈ scopes', ∀ entry ∈ scope, P entry.2 := by
  induction scopes generalizing scopes' with
  | nil => simp [Scopes.changeScopes] at hchange
  | cons first outer ih =>
    have hfirst := h first List.mem_cons_self
    have houter := fun scope hscope => h scope (List.mem_cons_of_mem first hscope)
    rw [Scopes.changeScopes] at hchange
    split at hchange
    · next value hvalue =>
      obtain rfl := Option.some.inj hchange
      intro scope hscope
      rcases List.mem_cons.mp hscope with rfl | hscope
      · exact scopeBind hfirst (hf _ (hfirst _ (Scope.mem_of_value? hvalue)))
      · exact houter scope hscope
    · obtain ⟨outer', houter', rfl⟩ := Option.map_eq_some_iff.mp hchange
      intro scope hscope
      rcases List.mem_cons.mp hscope with rfl | hscope
      · exact hfirst
      · exact ih houter houter' scope hscope

theorem change (h : t.All P) {name : String} {f : α → α} (hf : ∀ a, P a → P (f a)) :
    (t.change name f).All P := by
  have hinner := fun scope hscope => h scope (List.mem_append_left [t.root] hscope)
  have hroot := h t.root (List.mem_append_right t.inner (List.mem_singleton_self _))
  unfold Scopes.change
  intro scope hscope
  split at hscope
  · next inner hchange =>
    rcases List.mem_append.mp hscope with hscope | hscope
    · exact changeScopes hf hinner hchange scope hscope
    · obtain rfl := List.mem_singleton.mp hscope
      exact hroot
  · split at hscope
    · next value hvalue =>
      rcases List.mem_append.mp hscope with hscope | hscope
      · exact hinner scope hscope
      · obtain rfl := List.mem_singleton.mp hscope
        exact scopeBind hroot (hf _ (hroot _ (Scope.mem_of_value? hvalue)))
    · exact h scope hscope

end Scopes.All

theorem AllResolved.all {types : Scopes TypeBinding} (h : AllResolved types) :
    types.All fun entry => entry.resolved.isSome := h

def Frames.All (P : Ty → Prop) (l : Frames) : Prop :=
  ∀ (i : Nat) (frame : Frame), l.frames[i]? = some frame → ∀ ty ∈ frame.slots, P ty

namespace Frames.All
variable {P R : Ty → Prop} {l : Frames}

theorem imp (h : l.All P) (himp : ∀ ty, P ty → R ty) : l.All R :=
  fun i frame hframe ty hty => himp ty (h i frame hframe ty hty)

theorem modify (h : l.All P) (k : Nat) {f : Frame → Frame}
    (hf : ∀ frame, (∀ ty ∈ frame.slots, P ty) → ∀ ty ∈ (f frame).slots, P ty) :
    Frames.All P { l with frames := l.frames.modify k f } := by
  intro i frame hframe
  rw [Array.getElem?_modify] at hframe
  split at hframe
  · obtain ⟨old, hold, rfl⟩ := Option.map_eq_some_iff.mp hframe
    exact hf old (h i old hold)
  · exact h i frame hframe

theorem finalize (h : l.All P) (k : Nat) : (l.finalize k).All P := h.modify k fun _ hslots => hslots

theorem leave (h : l.All P) : l.leave.All P := by
  unfold Frames.leave
  split
  · exact h
  · exact finalize h _

theorem reserve (h : l.All P) {ty : Ty} (hty : P ty) : (l.reserve ty).2.All P := by
  apply modify h
  intro frame hslots other hother
  rcases Array.mem_push.mp hother with hold | rfl
  · exact hslots other hold
  · exact hty

theorem declare (h : l.All P) (name : String) : (l.declare name).2.All P := by
  intro i frame hframe
  rw [Frames.declare, Array.getElem?_push] at hframe
  split at hframe
  · obtain rfl := Option.some.inj hframe
    simp
  · exact h i frame hframe

end Frames.All

structure Registry.SizeLe (r r' : Registry) : Prop where
  records : r.records.size ≤ r'.records.size
  arrays : r.arrays.size ≤ r'.arrays.size

namespace Registry.SizeLe
variable {r r' r'' : Registry}

theorem refl (r : Registry) : r.SizeLe r := ⟨Nat.le_refl _, Nat.le_refl _⟩

theorem trans (h : r.SizeLe r') (h' : r'.SizeLe r'') : r.SizeLe r'' :=
  ⟨h.records.trans h'.records, h.arrays.trans h'.arrays⟩

end Registry.SizeLe

def Ty.Registered (r : Registry) : Ty → Prop
  | .record k => k < r.records.size
  | .array k => k < r.arrays.size
  | _ => True

/-- Values of the type can be kept in a variable, a field or an array. -/
structure Ty.Storable (r : Registry) (ty : Ty) : Prop where
  registered : ty.Registered r
  ne_nil : ty ≠ .nil
  ne_void : ty ≠ .void

structure SignatureStorable (r : Registry) (params : List Ty) (result : Ty) : Prop where
  params : ∀ param ∈ params, param.Storable r
  result : result = .void ∨ result.Storable r

structure RecordType.WellFormed (r : Registry) (record : RecordType) : Prop where
  fields : ∀ field ∈ record.fields, field.2.Storable r
  distinct : (record.fields.map Prod.fst).Nodup

/-- The elements of an array are of a known type, and if this is an array, of one registered
before. -/
structure ArrayType.WellFormed (r : Registry) (k : Nat) (array : ArrayType) : Prop where
  storable : array.element.Storable r
  known : array.element ≠ .error
  earlier : ∀ j, array.element = .array j → j < k

structure Registry.WellFormed (r : Registry) : Prop where
  records : ∀ {k : Nat} {record}, r.records[k]? = some record → record.WellFormed r
  arrays : ∀ {k : Nat} {array}, r.arrays[k]? = some array → array.WellFormed r k

def Registry.Complete (r : Registry) : Prop :=
  ∀ {k : Nat} {record : RecordType}, r.records[k]? = some record → record.complete = true

structure Checker.StoredIn (r : Registry) (s : Checker) : Prop where
  types : s.types.All fun entry => ∀ ty, entry.resolved = some ty → ty.Storable r
  vars : s.vars.All fun entry => entry.ty.Storable r
  functions : s.functions.All fun entry => SignatureStorable r entry.params entry.result
  slots : s.frames.All fun ty => ty.Storable r
  expTypes : ∀ {id : Nat} {ty}, s.facts.expTypes[id]? = some ty → ty.Registered r
  varTypes : ∀ {id : Nat} {ty}, s.facts.varTypes[id]? = some ty → ty.Registered r
  routines : ∀ {i : Nat} {routine}, s.facts.functions[i]? = some routine →
    SignatureStorable r routine.params routine.result

structure Checker.WellStored (s : Checker) : Prop where
  registry : s.registry.WellFormed
  held : s.StoredIn s.registry

section mono
variable {r r' : Registry}

theorem Ty.Registered.mono {ty : Ty} (h : ty.Registered r) (hle : r.SizeLe r') :
    ty.Registered r' := by
  cases ty with
  | record k => exact Nat.lt_of_lt_of_le h hle.records
  | array k => exact Nat.lt_of_lt_of_le h hle.arrays
  | _ => trivial

theorem Ty.Storable.mono {ty : Ty} (h : ty.Storable r) (hle : r.SizeLe r') : ty.Storable r' :=
  { h with registered := h.registered.mono hle }

theorem SignatureStorable.mono {params : List Ty} {result : Ty}
    (h : SignatureStorable r params result) (hle : r.SizeLe r') :
    SignatureStorable r' params result :=
  ⟨fun param hparam => (h.params param hparam).mono hle, h.result.imp_right (·.mono hle)⟩

theorem RecordType.WellFormed.mono {record : RecordType} (h : record.WellFormed r)
    (hle : r.SizeLe r') : record.WellFormed r' :=
  { h with fields := fun field hfield => (h.fields field hfield).mono hle }

theorem ArrayType.WellFormed.mono {k : Nat} {array : ArrayType} (h : array.WellFormed r k)
    (hle : r.SizeLe r') : array.WellFormed r' k :=
  { h with storable := h.storable.mono hle }

theorem Checker.StoredIn.mono {s : Checker} (h : s.StoredIn r) (hle : r.SizeLe r') :
    s.StoredIn r' where
  types := h.types.imp fun _ htypes ty hty => (htypes ty hty).mono hle
  vars := h.vars.imp fun _ hty => hty.mono hle
  functions := h.functions.imp fun _ hsignature => hsignature.mono hle
  slots := h.slots.imp fun _ hty => hty.mono hle
  expTypes hty := (h.expTypes hty).mono hle
  varTypes hty := (h.varTypes hty).mono hle
  routines hroutine := (h.routines hroutine).mono hle

end mono

namespace Registry
variable {r : Registry}

/-- The number of arrays registered up to a type, if it is an array. -/
def arraysUpTo : Ty → Nat
  | .array k => k + 1
  | _ => 0

/-- Going from arrays to their elements comes to an end. -/
theorem WellFormed.wellFounded_element? (h : r.WellFormed) :
    WellFounded fun element ty => r.element? ty = some element := by
  apply Subrelation.wf (r := InvImage (· < ·) arraysUpTo) ?_
    (InvImage.wf arraysUpTo Nat.lt_wfRel.wf)
  intro element ty helement
  cases ty with
  | array k =>
    obtain ⟨array, harray, rfl⟩ := Option.map_eq_some_iff.mp helement
    show arraysUpTo array.element < k + 1
    cases hcase : array.element with
    | array j => exact Nat.succ_lt_succ ((h.arrays harray).earlier j hcase)
    | _ => exact Nat.succ_pos k
  | _ => cases helement

theorem WellFormed.element?_storable (h : r.WellFormed) {ty element : Ty}
    (helement : r.element? ty = some element) : element.Storable r := by
  cases ty with
  | array k =>
    obtain ⟨array, harray, rfl⟩ := Option.map_eq_some_iff.mp helement
    exact (h.arrays harray).storable
  | _ => cases helement

theorem WellFormed.field?_storable (h : r.WellFormed) {ty fieldType : Ty} {name : String}
    {place : Nat} (hfield : r.field? ty name = some (place, fieldType)) : fieldType.Storable r := by
  cases ty with
  | record k =>
    obtain ⟨record, hrecord, hrest⟩ := Option.bind_eq_some_iff.mp hfield
    obtain ⟨i, -, hrest⟩ := Option.bind_eq_some_iff.mp hrest
    obtain ⟨field, hi, heq⟩ := Option.bind_eq_some_iff.mp hrest
    obtain ⟨-, rfl⟩ := Prod.mk.inj (Option.some.inj heq)
    exact (h.records hrecord).fields field (List.mem_of_getElem? hi)
  | _ => cases hfield

theorem sizeLe_addRecord (r : Registry) (name : String) : r.SizeLe (r.addRecord name).2 :=
  ⟨by simp [addRecord], Nat.le_refl _⟩

theorem sizeLe_addArray (r : Registry) (name : String) (element : Ty) :
    r.SizeLe (r.addArray name element).2 :=
  ⟨Nat.le_refl _, by simp [addArray]⟩

theorem sizeLe_fillRecord (r : Registry) (id : Nat) (fields : List (String × Ty)) :
    r.SizeLe (r.fillRecord id fields) :=
  ⟨by simp [fillRecord], Nat.le_refl _⟩

theorem WellFormed.addRecord (h : r.WellFormed) (name : String) :
    (r.addRecord name).2.WellFormed := by
  have hle := r.sizeLe_addRecord name
  constructor
  · intro k record hrecord
    rw [Registry.addRecord, Array.getElem?_push] at hrecord
    split at hrecord
    · obtain rfl := Option.some.inj hrecord
      exact ⟨by simp, by simp⟩
    · exact (h.records hrecord).mono hle
  · exact fun harray => (h.arrays harray).mono hle

theorem WellFormed.fillRecord (h : r.WellFormed) (id : Nat) {fields : List (String × Ty)}
    (hfields : ∀ field ∈ fields, field.2.Storable r) (hdistinct : (fields.map Prod.fst).Nodup) :
    (r.fillRecord id fields).WellFormed := by
  have hle := r.sizeLe_fillRecord id fields
  constructor
  · intro k record hrecord
    rw [Registry.fillRecord, Array.getElem?_modify] at hrecord
    split at hrecord
    · obtain ⟨old, -, rfl⟩ := Option.map_eq_some_iff.mp hrecord
      exact ⟨fun field hfield => (hfields field hfield).mono hle, hdistinct⟩
    · exact (h.records hrecord).mono hle
  · exact fun harray => (h.arrays harray).mono hle

theorem WellFormed.addArray (h : r.WellFormed) (name : String) {element : Ty}
    (helement : element.Storable r) (hknown : element ≠ .error) :
    (r.addArray name element).2.WellFormed := by
  have hle := r.sizeLe_addArray name element
  constructor
  · exact fun hrecord => (h.records hrecord).mono hle
  · intro k array harray
    rw [Registry.addArray, Array.getElem?_push] at harray
    split at harray
    · next heq =>
      obtain rfl := Option.some.inj harray
      refine ⟨helement.mono hle, hknown, fun j hj => ?_⟩
      have hregistered := helement.registered
      rw [show element = .array j from hj] at hregistered
      exact heq ▸ hregistered
    · exact (h.arrays harray).mono hle

end Registry

/-- A state with well stored types. Once the types of all blocks are settled, no type name is left
to be looked into and no record to be filled. -/
structure Checker.Fit (settled : Prop) (s : Checker) : Prop where
  stored : s.WellStored
  settled : settled → AllResolved s.types ∧ s.registry.Complete

namespace Checker.Fit
variable {p : Prop} {s : Checker}

theorem reports {s' : Checker} (h : s.Fit p) (hreports : s.Reports s') : s'.Fit p := by
  rw [hreports.same]
  exact ⟨⟨h.stored.registry, { h.stored.held with }⟩, h.settled⟩

theorem keep {s' : Checker} (h : s.Fit p) (htypes : s'.types = s.types)
    (hregistry : s'.registry = s.registry) (hheld : s'.StoredIn s.registry) : s'.Fit p := by
  refine ⟨⟨?_, ?_⟩, ?_⟩
  · exact hregistry ▸ h.stored.registry
  · exact hregistry ▸ hheld
  · rw [htypes, hregistry]
    exact h.settled

theorem withVars (h : s.Fit p) {vars : Scopes VarBinding}
    (hvars : vars.All fun entry => entry.ty.Storable s.registry) : { s with vars }.Fit p :=
  h.keep rfl rfl { h.stored.held with vars := hvars }

theorem withFunctions (h : s.Fit p) {functions : Scopes FunBinding}
    (hfunctions : functions.All fun entry =>
      SignatureStorable s.registry entry.params entry.result) : { s with functions }.Fit p :=
  h.keep rfl rfl { h.stored.held with functions := hfunctions }

theorem withFrames (h : s.Fit p) {frames : Frames} {loopDepth : Nat}
    (hslots : frames.All fun ty => ty.Storable s.registry) : { s with frames, loopDepth }.Fit p :=
  h.keep rfl rfl { h.stored.held with slots := hslots }

theorem withFacts (h : s.Fit p) {facts : Facts} (hexps : facts.expTypes = s.facts.expTypes)
    (hvars : facts.varTypes = s.facts.varTypes) (hfunctions : facts.functions = s.facts.functions) :
    { s with facts }.Fit p := by
  refine h.keep rfl rfl ?_
  exact { h.stored.held with
    expTypes := fun hty => h.stored.held.expTypes (hexps ▸ hty)
    varTypes := fun hty => h.stored.held.varTypes (hvars ▸ hty)
    routines := fun hroutine => h.stored.held.routines (hfunctions ▸ hroutine) }

theorem registered_insert {types : NodeMap Ty} {r : Registry}
    (h : ∀ {id : Nat} {ty}, types[id]? = some ty → ty.Registered r) {id : Nat} {ty : Ty}
    (hty : ty.Registered r) {other : Nat} {found : Ty}
    (hfound : (types.insert id ty)[other]? = some found) : found.Registered r := by
  rw [Std.TreeMap.getElem?_insert] at hfound
  split at hfound
  · obtain rfl := Option.some.inj hfound
    exact hty
  · exact h hfound

theorem noteExp (h : s.Fit p) (id : Nat) {ty : Ty} (hty : ty.Registered s.registry) :
    { s with facts := { s.facts with expTypes := s.facts.expTypes.insert id ty } }.Fit p :=
  h.keep rfl rfl { h.stored.held with
    expTypes := fun hfound => registered_insert h.stored.held.expTypes hty hfound }

theorem noteVar (h : s.Fit p) (id : Nat) {ty : Ty} (hty : ty.Registered s.registry) :
    { s with facts := { s.facts with varTypes := s.facts.varTypes.insert id ty } }.Fit p :=
  h.keep rfl rfl { h.stored.held with
    varTypes := fun hfound => registered_insert h.stored.held.varTypes hty hfound }

theorem addFunction (h : s.Fit p) (node : Node) (name symbol : String) {params : List Ty}
    {result : Ty} (hsignature : SignatureStorable s.registry params result) :
    ((CheckM.addFunction node name symbol params result).run s).2.Fit p := by
  refine h.keep rfl rfl ?_
  have hroutines : ∀ {i : Nat} {routine}, (s.facts.functions.push
      ⟨name, symbol, s.frames.frames.size, s.frames.level + 1, params, result⟩)[i]? = some routine →
      SignatureStorable s.registry routine.params routine.result := by
    intro i routine hroutine
    rw [Array.getElem?_push] at hroutine
    split at hroutine
    · obtain rfl := Option.some.inj hroutine
      exact hsignature
    · exact h.stored.held.routines hroutine
  exact { h.stored.held with
    slots := h.stored.held.slots.declare symbol
    routines := hroutines }

theorem enterScopes (h : s.Fit p) : (CheckM.enterScopes.run s).2.Fit p where
  stored := ⟨h.stored.registry, { h.stored.held with
    types := h.stored.held.types.enter
    vars := h.stored.held.vars.enter
    functions := h.stored.held.functions.enter }⟩
  settled hp := ⟨(h.settled hp).1.all.enter, (h.settled hp).2⟩

theorem leaveScopes (h : s.Fit p) : (CheckM.leaveScopes.run s).2.Fit p where
  stored := ⟨h.stored.registry, { h.stored.held with
    types := h.stored.held.types.leave
    vars := h.stored.held.vars.leave
    functions := h.stored.held.functions.leave }⟩
  settled hp := ⟨(h.settled hp).1.all.leave, (h.settled hp).2⟩

/-! While the types of a block are resolved -/

theorem withTypes (h : s.Fit p) (hp : ¬ p) {types : Scopes TypeBinding}
    (htypes : types.All fun entry => ∀ ty, entry.resolved = some ty → ty.Storable s.registry) :
    { s with types }.Fit p where
  stored := ⟨h.stored.registry, { h.stored.held with types := htypes }⟩
  settled hp' := absurd hp' hp

theorem withRegistry (h : s.Fit p) (hp : ¬ p) {registry : Registry}
    (hregistry : registry.WellFormed) (hle : s.registry.SizeLe registry) :
    { s with registry }.Fit p where
  stored := ⟨hregistry, { h.stored.held.mono hle with }⟩
  settled hp' := absurd hp' hp

end Checker.Fit

theorem LibraryFunction.signatureStorable (r : Registry) {f : LibraryFunction}
    (hf : f ∈ LibraryFunction.all) : SignatureStorable r f.params f.result := by
  have hknown : ∀ f ∈ LibraryFunction.all, (∀ param ∈ f.params, param = .int ∨ param = .string) ∧
      (f.result = .void ∨ f.result = .int ∨ f.result = .string) := by decide
  have hstorable : ∀ ty : Ty, ty = .int ∨ ty = .string → ty.Storable r := by
    rintro ty (rfl | rfl) <;> exact ⟨trivial, by simp, by simp⟩
  obtain ⟨hparams, hresult⟩ := hknown f hf
  exact ⟨fun param hparam => hstorable param (hparams param hparam),
    hresult.imp_right (hstorable _)⟩

theorem Checker.libraryFunctions_all (r : Registry) : Checker.libraryFunctions.All fun entry =>
    SignatureStorable r entry.params entry.result := by
  have hfold : ∀ (fs : List LibraryFunction) (table : Scopes FunBinding),
      (∀ f ∈ fs, f ∈ LibraryFunction.all) →
      (table.All fun entry => SignatureStorable r entry.params entry.result) →
      (fs.foldl (fun table f =>
        table.bind f.name ⟨f.params, f.result, .library f.symbol⟩) table).All
          fun entry => SignatureStorable r entry.params entry.result := by
    intro fs
    induction fs with
    | nil => exact fun _ _ htable => htable
    | cons f fs ih =>
      intro table hfs htable
      apply ih _ fun f hf => hfs f (List.mem_cons_of_mem _ hf)
      exact htable.bind (LibraryFunction.signatureStorable r (hfs f List.mem_cons_self))
  exact hfold _ _ (fun _ hf => hf) .empty

theorem Checker.fit_initial (p : Prop) : Checker.initial.Fit p := by
  have hstorable : ∀ {known : Ty}, known = .int ∨ known = .string →
      ∀ ty, some known = some ty → ty.Storable Checker.initial.registry := by
    rintro known (rfl | rfl) ty hty <;> cases hty <;> exact ⟨trivial, by simp, by simp⟩
  refine ⟨⟨⟨fun hrecord => ?_, fun harray => ?_⟩, ?_⟩,
    fun _ => ⟨allResolved_initial, fun hrecord => ?_⟩⟩
  · cases hrecord
  · cases harray
  · constructor
    case types => exact (Scopes.All.empty.bind (hstorable (.inl rfl))).bind (hstorable (.inr rfl))
    case vars => exact .empty
    case functions => exact Checker.libraryFunctions_all _
    case slots =>
      intro i frame hframe
      obtain ⟨hlt, rfl⟩ := Array.getElem?_eq_some_iff.mp hframe
      obtain rfl : i = 0 := Nat.lt_one_iff.mp hlt
      exact fun ty hty => nomatch hty
    case expTypes => exact fun hty => by simp [Checker.initial, Facts.empty] at hty
    case varTypes => exact fun hty => by simp [Checker.initial, Facts.empty] at hty
    case routines => exact fun hroutine => by simp [Checker.initial, Facts.empty] at hroutine
  · cases hrecord

end TigerLang
