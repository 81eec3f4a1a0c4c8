import TigerLang.Proofs.Storage
import TigerLang.Proofs.Traces

/-! States with well stored types, all the way. From such a state an action passes through such
states only, and answers a type that may be stored in turn. -/

namespace TigerLang

theorem Checker.Reports.registry {s s' : Checker} (h : s.Reports s') :
    s'.registry = s.registry := by
  rw [h.same]

theorem Checker.Fit.mono {p q : Prop} {s : Checker} (h : s.Fit p) (himp : q → p) : s.Fit q :=
  ⟨h.stored, fun hq => h.settled (himp hq)⟩

namespace Trace
variable {α β : Type} {p : Prop} {s : Checker}

/-- All states on the way are fit, except that settling is put off while types are resolved. The
registry does not lose types, and the answer is as stated. -/
structure Holds (p : Prop) {x : CheckM α} (t : Trace x) (s : Checker)
    (Q : α → Checker → Prop) : Prop where
  moments : ∀ m ∈ t.moments s, m.state.Fit (p ∧ m.resolving = false)
  after : (x.run s).2.Fit p
  grows : s.registry.SizeLe (x.run s).2.registry
  answer : Q (x.run s).1 (x.run s).2

namespace Holds
variable {Q : α → Checker → Prop} {R : β → Checker → Prop} {x : CheckM α} {f : α → CheckM β}

theorem observe (hx : Observes x) (hs : s.Fit p) (hq : Q (x.run s).1 (x.run s).2) :
    (Trace.observe hx).Holds p s Q := by
  have hs' := hs.reports (hx.reports s)
  refine ⟨?_, hs', ?_, hq⟩
  · intro m hm
    rcases List.mem_pair.mp hm with rfl | rfl
    · exact hs.mono And.left
    · exact hs'.mono And.left
  · rw [(hx.reports s).registry]
    exact .refl _

theorem write {g : Checker → α × Checker} (hs : s.Fit p) (hs' : (g s).2.Fit p)
    (hgrows : s.registry.SizeLe (g s).2.registry) (hq : Q (g s).1 (g s).2) :
    (Trace.write g).Holds p s Q := by
  refine ⟨?_, hs', hgrows, hq⟩
  intro m hm
  rcases List.mem_pair.mp hm with rfl | rfl
  · exact hs.mono And.left
  · exact hs'.mono And.left

theorem bind {t : Trace x} {next : ∀ a, Trace (f a)} (h : t.Holds p s Q)
    (hnext : ∀ a s', s'.Fit p → s.registry.SizeLe s'.registry → Q a s' → (next a).Holds p s' R) :
    (t.bind next).Holds p s R := by
  have hrest := hnext _ _ h.after h.grows h.answer
  refine ⟨?_, hrest.after, h.grows.trans hrest.grows, hrest.answer⟩
  intro m hm
  rcases List.mem_append.mp hm with hfirst | hsecond
  · exact h.moments m hfirst
  · exact hrest.moments m hsecond

theorem ite {c : Prop} [Decidable c] {y : CheckM α} {yes : Trace x} {no : Trace y}
    (hyes : c → yes.Holds p s Q) (hno : ¬ c → no.Holds p s Q) :
    (Trace.ite c yes no).Holds p s Q := by
  by_cases hc : c
  · have h := hyes hc
    refine ⟨?_, ?_, ?_, ?_⟩ <;> simp only [Trace.moments, if_pos hc]
    exacts [h.moments, h.after, h.grows, h.answer]
  · have h := hno hc
    refine ⟨?_, ?_, ?_, ?_⟩ <;> simp only [Trace.moments, if_neg hc]
    exacts [h.moments, h.after, h.grows, h.answer]

theorem resolving {t : Trace x} (h : t.Holds False s Q) (hsettled : (x.run s).2.Fit p) :
    t.resolving.Holds p s Q := by
  refine ⟨?_, hsettled, h.grows, h.answer⟩
  intro m hm
  obtain ⟨m', hm', rfl⟩ := List.mem_map.mp hm
  exact ⟨(h.moments m' hm').stored, fun hfalse => absurd hfalse.2 (by simp)⟩

theorem pure {a : α} (hs : s.Fit p) (hq : Q a s) : (Trace.pure a).Holds p s Q := observe _ hs hq

theorem getThen {f : Checker → CheckM β} {next : ∀ a, Trace (f a)} (hs : s.Fit p)
    (h : (next s).Holds p s R) : (Trace.get.bind next).Holds p s R := by
  have hget : Trace.get.Holds p s fun a s' => a = s ∧ s' = s := observe _ hs ⟨rfl, rfl⟩
  apply hget.bind
  rintro a s' - - ⟨rfl, rfl⟩
  exact h

theorem observeThen {hx : Observes x} {next : ∀ a, Trace (f a)} (hs : s.Fit p)
    (h : ∀ s', s'.Fit p → s'.registry = s.registry → (next (x.run s).1).Holds p s' R) :
    ((Trace.observe hx).bind next).Holds p s R := by
  have hobserve : (Trace.observe hx).Holds p s fun a s' =>
      a = (x.run s).1 ∧ s'.registry = s.registry := observe _ hs ⟨rfl, (hx.reports s).registry⟩
  apply hobserve.bind
  rintro a s' hs' - ⟨rfl, hregistry⟩
  exact h s' hs' hregistry

end Holds

/-! Type names -/

def FindsStorable (p : Prop) {resolve : String → Position → CheckM Ty}
    (t : ∀ name position, Trace (resolve name position)) : Prop :=
  ∀ name position s, s.Fit p → (t name position).Holds p s fun ty s' => ty.Storable s'.registry

theorem settle_holds (hp : ¬ p) (hs : s.Fit p) (name : String) {ty : Ty}
    (hty : ty.Storable s.registry) : (settle name ty).Holds p s fun _ _ => True := by
  refine .write hs (hs.withTypes hp ?_) (.refl _) trivial
  apply hs.stored.held.types.change
  rintro entry - ty' hty'
  obtain rfl := Option.some.inj hty'
  exact hty

theorem settleAll_holds (hp : ¬ p) (loop : List String) {ty : Ty} (hs : s.Fit p)
    (hty : ty.Storable s.registry) : (settleAll ty loop).Holds p s fun _ _ => True := by
  induction loop generalizing s with
  | nil => exact .pure hs trivial
  | cons name loop ih =>
    exact (settle_holds hp hs name hty).bind fun _ s' hs' hle _ => ih hs' (hty.mono hle)

theorem addRecord_holds (hp : ¬ p) (hs : s.Fit p) (name : String) :
    (addRecord name).Holds p s fun id s' => (Ty.record id).Storable s'.registry := by
  have hle := s.registry.sizeLe_addRecord name
  refine .write hs (hs.withRegistry hp (hs.stored.registry.addRecord name) hle) hle ?_
  exact ⟨by simp [Ty.Registered, Registry.addRecord], by simp, by simp⟩

theorem fillRecord_holds (hp : ¬ p) (hs : s.Fit p) (id : Nat) {fields : List (String × Ty)}
    (hfields : ∀ field ∈ fields, field.2.Storable s.registry)
    (hdistinct : (fields.map Prod.fst).Nodup) :
    (fillRecord id fields).Holds p s fun _ _ => True := by
  have hle := s.registry.sizeLe_fillRecord id fields
  exact .write hs
    (hs.withRegistry hp (hs.stored.registry.fillRecord id hfields hdistinct) hle) hle trivial

theorem addArray_holds (hp : ¬ p) (hs : s.Fit p) (name : String) {element : Ty}
    (helement : element.Storable s.registry) (hknown : element ≠ .error) :
    (addArray name element).Holds p s fun id s' => (Ty.array id).Storable s'.registry := by
  have hle := s.registry.sizeLe_addArray name element
  refine .write hs
    (hs.withRegistry hp (hs.stored.registry.addArray name helement hknown) hle) hle ?_
  exact ⟨by simp [Ty.Registered, Registry.addArray], by simp, by simp⟩

theorem resolved?_holds (hs : s.Fit p) (name : String) :
    (resolved? name).Holds p s fun found s' => ∀ ty, found = some ty → ty.Storable s'.registry := by
  refine .getThen hs (.pure hs fun ty hty => ?_)
  obtain ⟨entry, hentry, hresolved⟩ := Option.bind_eq_some_iff.mp hty
  exact hs.stored.held.types.find? hentry ty hresolved

section resolve
variable {resolve : String → Position → CheckM Ty}
  {t : ∀ name position, Trace (resolve name position)}

theorem resolveFields_holds (ht : FindsStorable p t) (fields : List Field)
    {found : List (String × Ty)} (hs : s.Fit p)
    (hfound : ∀ field ∈ found, field.2.Storable s.registry)
    (hdistinct : (found.map Prod.fst).Nodup) :
    (resolveFields t found fields).Holds p s fun typed s' =>
      (∀ field ∈ typed, field.2.Storable s'.registry) ∧ (typed.map Prod.fst).Nodup := by
  induction fields generalizing found s with
  | nil => exact .pure hs ⟨hfound, hdistinct⟩
  | cons field fields ih =>
    refine .ite (fun _ => ?_) fun hnew => ?_
    · refine .observeThen hs fun s' hs' hregistry => ih hs' ?_ hdistinct
      exact hregistry ▸ hfound
    · refine (ht _ _ s hs).bind fun ty s' hs' hle hty => ih hs' ?_ ?_
      · intro other hother
        rcases List.mem_append.mp hother with hold | hlast
        · exact (hfound other hold).mono hle
        · obtain rfl := List.mem_singleton.mp hlast
          exact hty
      · have hother : field.name ∉ found.map Prod.fst := by
          intro hmem
          obtain ⟨other, hother, heq⟩ := List.mem_map.mp hmem
          exact hnew (List.any_eq_true.mpr ⟨other, hother, beq_iff_eq.mpr heq⟩)
        rw [List.map_append, List.map_singleton, ← List.concat_eq_append]
        exact hdistinct.concat hother

theorem resolveDefinition_holds (hp : ¬ p) (ht : FindsStorable p t) (hs : s.Fit p) (name : String)
    (definition : TypeExp) :
    (resolveDefinition t name definition).Holds p s fun ty s' => ty.Storable s'.registry := by
  cases definition with
  | name span target => exact ht _ _ s hs
  | array span element =>
    refine (ht _ _ s hs).bind fun ty s₁ hs₁ _ hty => ?_
    refine (resolved?_holds hs₁ name).bind fun found s₂ hs₂ hle hfound => ?_
    cases found with
    | some other => exact .pure hs₂ (hfound other rfl)
    | none =>
      refine .ite (fun _ => ?_) fun hknown => ?_
      · exact .pure hs₂ ⟨trivial, by simp, by simp⟩
      · have hne : ty ≠ .error := by
          rintro rfl
          exact hknown rfl
        exact (addArray_holds hp hs₂ name (hty.mono hle) hne).bind fun _ s' hs' _ hid =>
          .pure hs' hid
  | record span fields =>
    -- The number is storable from the start, long before the fields are known.
    refine (addRecord_holds hp hs name).bind fun id s₁ hs₁ _ hid => ?_
    refine (settle_holds hp hs₁ name hid).bind fun _ s₂ hs₂ hle₂ _ => ?_
    refine (resolveFields_holds ht fields hs₂ (by simp) (by simp)).bind
      fun typed s₃ hs₃ hle₃ htyped => ?_
    refine (fillRecord_holds hp hs₃ id htyped.1 htyped.2).bind fun _ s₄ hs₄ hle₄ _ => ?_
    exact .pure hs₄ (((hid.mono hle₂).mono hle₃).mono hle₄)

theorem resolveLoop_holds (hp : ¬ p) (ht : FindsStorable p t) (hs : s.Fit p) (name : String)
    (declared position : Position) (loop : List String) :
    (resolveLoop t name declared position loop).Holds p s fun ty s' => ty.Storable s'.registry := by
  have herror : ∀ r, Ty.error.Storable r := fun _ => ⟨trivial, by simp, by simp⟩
  refine .getThen hs (.ite (fun _ => ht _ _ s hs) fun _ => ?_)
  refine .observeThen hs fun s₁ hs₁ _ => ?_
  exact (settleAll_holds hp loop hs₁ (herror _)).bind fun _ s₂ hs₂ _ _ => .pure hs₂ (herror _)

theorem walk_holds (ht : FindsStorable p t) (fuel : Nat) (visiting : List String) :
    FindsStorable p (walk t fuel visiting) := by
  have herror : ∀ r, Ty.error.Storable r := fun _ => ⟨trivial, by simp, by simp⟩
  induction fuel generalizing visiting with
  | zero => exact fun _ _ s hs => .pure hs (herror _)
  | succ fuel ih =>
    intro name position s hs
    refine .getThen hs ?_
    cases hfind : s.types.find? name with
    | none => exact .observeThen hs fun s' hs' _ => .pure hs' (herror _)
    | some entry =>
      obtain ⟨definition, resolved, declared⟩ := entry
      have hp : resolved = none → ¬ p := by
        rintro rfl hp
        simpa using (hs.settled hp).1.find? hfind
      cases resolved with
      | some ty =>
        have hty := hs.stored.held.types.find? hfind ty rfl
        cases definition <;> exact .pure hs hty
      | none =>
        cases definition with
        | none => exact .pure hs (herror _)
        | some definition =>
          refine .ite (fun _ => ?_) fun _ => ?_
          · exact resolveLoop_holds (hp rfl) ht hs _ _ _ _
          · refine (resolveDefinition_holds (hp rfl) (ih _) hs name definition).bind
              fun found s₁ hs₁ _ hfound => ?_
            refine (resolved?_holds hs₁ name).bind fun settled s₂ hs₂ hle₂ hsettled => ?_
            have hty : (settled.getD found).Storable s₂.registry := by
              cases settled with
              | none => exact hfound.mono hle₂
              | some ty => exact hsettled ty rfl
            refine (settle_holds (hp rfl) hs₂ name hty).bind fun _ s₃ hs₃ hle₃ _ => ?_
            refine .getThen hs₃ (.observeThen hs₃ fun s₄ hs₄ hregistry => ?_)
            exact .pure hs₄ (hregistry ▸ hty.mono hle₃)

end resolve

theorem freshWalk_holds (fuel rounds : Nat) : FindsStorable p (freshWalk fuel rounds) := by
  induction rounds with
  | zero => exact fun _ _ s hs => .pure hs ⟨trivial, by simp, by simp⟩
  | succ rounds ih => exact walk_holds ih fuel []

theorem typeNamed_holds : FindsStorable p typeNamed := fun name position s hs =>
  .getThen hs (walk_holds (freshWalk_holds _ 2) _ [] name position s hs)

/-! Blocks -/

theorem declareTypes_holds (hp : ¬ p) (decs : List Dec) (hs : s.Fit p) :
    (declareTypes decs).Holds p s fun _ _ => True := by
  induction decs generalizing s with
  | nil => exact .pure hs trivial
  | cons d decs ih =>
    cases d with
    | var node name typeName init => exact ih hs
    | function node name params result body => exact ih hs
    | type node name definition =>
      refine .getThen hs (.ite (fun _ => ?_) fun _ => ?_)
      · exact .observeThen hs fun s' hs' _ => ih hs'
      · let entry : TypeBinding := ⟨some definition, none, node.span.start⟩
        have hbind : { s with types := s.types.bind name entry }.Fit p :=
          hs.withTypes hp (hs.stored.held.types.bind nofun)
        refine Holds.bind (Q := fun _ _ => True) (.write hs hbind (.refl _) trivial)
          fun _ s₁ hs₁ _ _ => ?_
        exact (ih hs₁).bind fun _ s₂ hs₂ _ _ => .pure hs₂ trivial

theorem resolveTypes_holds (names : List (String × Position)) (hs : s.Fit p) :
    (resolveTypes names).Holds p s fun _ _ => True := by
  induction names generalizing s with
  | nil => exact .pure hs trivial
  | cons name names ih =>
    have hfirst := typeNamed_holds name.1 name.2 s hs
    refine Holds.bind (Q := fun _ _ => True) ?_ fun _ s' hs' _ _ => ih hs'
    exact hfirst.bind fun _ s' hs' _ _ => .pure hs' trivial

theorem complete_of_settled {outer : Scopes TypeBinding} {decs : List Dec} {s' : Checker}
    {scope : Scope TypeBinding} (h : CheckM.TypesSettled outer decs s s' scope)
    (hs : s.registry.Complete) : s'.registry.Complete := by
  intro k record hrecord
  have hsound := h.resolving.sound
  by_cases hold : k < s.registry.records.size
  · obtain ⟨old, hk⟩ : ∃ old, s.registry.records[k]? = some old :=
      ⟨_, Array.getElem?_eq_getElem hold⟩
    have hsame := hsound.extends_.record? hk
    rw [hrecord] at hsame
    exact Option.some.inj hsame ▸ hs hk
  · obtain ⟨hlt, -⟩ := Array.getElem?_eq_some_iff.mp hrecord
    obtain ⟨name, span, fields, hname, hresolved⟩ := hsound.records (Nat.not_lt.mp hold) hlt
    obtain ⟨k', record', hk', -, hrecord', -, hcomplete⟩ := hsound.fits hname hresolved
    obtain rfl := Ty.record.inj hk'
    rw [hrecord] at hrecord'
    exact Option.some.inj hrecord' ▸ (hcomplete (by simp)).1

theorem paramTypes_holds (params : List Field) {before : List Ty} (hs : s.Fit p)
    (hbefore : ∀ ty ∈ before, ty.Storable s.registry) :
    (paramTypes params before).Holds p s fun types s' => ∀ ty ∈ types, ty.Storable s'.registry := by
  induction params generalizing before s with
  | nil => exact .pure hs fun ty hty => hbefore ty (List.mem_reverse.mp hty)
  | cons param params ih =>
    refine (typeNamed_holds _ _ s hs).bind fun ty s' hs' hle hty => ih hs' ?_
    intro other hother
    rcases List.mem_cons.mp hother with rfl | hold
    · exact hty
    · exact (hbefore other hold).mono hle

theorem enterFunction_holds (node : Node) (name : String) {params : List Ty} {result : Ty}
    (hs : s.Fit p) (hsignature : SignatureStorable s.registry params result) :
    (enterFunction node name params result).Holds p s fun _ _ => True := by
  refine Holds.bind (Q := fun _ s' => s'.registry = s.registry)
    (.write hs (hs.addFunction node name _ hsignature) (.refl _) rfl) fun id s₁ hs₁ hle₁ _ => ?_
  refine .observeThen hs₁ fun s₂ hs₂ hregistry => .getThen hs₂ (.ite (fun _ => ?_) fun _ => ?_)
  · exact .observe _ hs₂ trivial
  · refine .write hs₂ (hs₂.withFunctions (hs₂.stored.held.functions.bind ?_)) (.refl _) trivial
    exact hregistry ▸ hsignature.mono hle₁

theorem declareHeading_holds (node : Node) (name : String) (params : List Field)
    (result : Option String) (hs : s.Fit p) :
    (declareHeading node name params result).Holds p s fun _ _ => True := by
  cases result with
  | some result =>
    refine (paramTypes_holds params hs (by simp)).bind fun types s₁ hs₁ _ htypes => ?_
    refine (typeNamed_holds result node.span.start s₁ hs₁).bind fun ty s₂ hs₂ hle₂ hty => ?_
    exact enterFunction_holds node name hs₂
      ⟨fun other hother => (htypes other hother).mono hle₂, .inr hty⟩
  | none =>
    refine (paramTypes_holds params hs (by simp)).bind fun types s₁ hs₁ _ htypes => ?_
    exact .observeThen hs₁ fun s₂ hs₂ hregistry =>
      enterFunction_holds node name hs₂ ⟨hregistry ▸ htypes, .inl rfl⟩

theorem declareHeadings_holds (decs : List Dec) (hs : s.Fit p) :
    (declareHeadings decs).Holds p s fun _ _ => True := by
  induction decs generalizing s with
  | nil => exact .pure hs trivial
  | cons d decs ih =>
    cases d with
    | var node name typeName init => exact ih hs
    | type node name definition => exact ih hs
    | function node name params result body =>
      exact (declareHeading_holds node name params result hs).bind fun _ s' hs' _ _ => ih hs'

theorem declareBlock_holds {outer : Scopes TypeBinding} (houter : AllResolved outer)
    (decs : List Dec) (hs : s.Fit True) (htypes : s.types = outer.within []) :
    (declareBlock decs).Holds True s fun _ _ => True := by
  obtain ⟨scope, hsettled⟩ := CheckM.declareTypes_resolveTypes houter htypes decs
  have hresolving : ((declareTypes decs).bind resolveTypes).Holds False s fun _ _ => True :=
    (declareTypes_holds not_false decs (hs.mono False.elim)).bind fun names s' hs' _ _ =>
      resolveTypes_holds names hs'
  have hafter : ((CheckM.declareTypes decs >>= CheckM.resolveTypes).run s).2.Fit True := by
    refine ⟨hresolving.after.stored, fun _ => ⟨?_, ?_⟩⟩
    · rw [hsettled.resolving.types]
      exact houter.within hsettled.settled
    · exact complete_of_settled hsettled (hs.settled trivial).2
  exact (hresolving.resolving hafter).bind fun _ s' hs' _ _ => declareHeadings_holds decs hs'

theorem inScope_holds {x : CheckM α} {t : Trace x} {Q : α → Registry → Prop} (hs : s.Fit p)
    (h : ∀ s', s'.Fit p → s'.types = s.types.within [] → s'.registry = s.registry →
      t.Holds p s' fun a s'' => Q a s''.registry) :
    (inScope t).Holds p s fun a s' => Q a s'.registry := by
  refine Holds.bind (Q := fun _ s' => s'.types = s.types.within [] ∧ s'.registry = s.registry)
    (.write hs hs.enterScopes (.refl _) ⟨rfl, rfl⟩) fun _ s₁ hs₁ _ hentered => ?_
  refine .getThen hs₁ ?_
  refine Holds.bind (Q := fun _ s' => s'.types = s.types.within [] ∧ s'.registry = s.registry)
    (.observe _ hs₁ hentered) fun _ s₂ hs₂ _ hentered => ?_
  refine (h s₂ hs₂ hentered.1 hentered.2).bind fun a s₃ hs₃ _ ha => ?_
  refine Holds.bind (Q := fun _ s' => s'.registry = s₃.registry)
    (.write hs₃ hs₃.leaveScopes (.refl _) rfl) fun _ s₄ hs₄ _ hregistry => ?_
  exact .pure hs₄ (hregistry ▸ ha)

abbrev FindsRegistered {x : CheckM Ty} (t : Trace x) (s : Checker) : Prop :=
  t.Holds True s fun ty s' => ty.Registered s'.registry

theorem inLoop_holds {x : CheckM Ty} {t : Trace x} (hs : s.Fit True)
    (h : ∀ s', s'.Fit True → FindsRegistered t s') : FindsRegistered (inLoop t) s := by
  refine Holds.bind (Q := fun _ _ => True)
    (.write hs (hs.withFrames hs.stored.held.slots) (.refl _) trivial) fun _ s₁ hs₁ _ _ => ?_
  refine (h s₁ hs₁).bind fun a s₂ hs₂ _ ha => ?_
  refine Holds.bind (Q := fun _ s' => s'.registry = s₂.registry)
    (.write hs₂ (hs₂.withFrames hs₂.stored.held.slots) (.refl _) rfl) fun _ s₃ hs₃ _ hregistry => ?_
  exact .pure hs₃ (hregistry ▸ ha)

theorem reserve_holds (hs : s.Fit p) {ty : Ty} (hty : ty.Storable s.registry) :
    (reserve ty).Holds p s fun _ s' => s'.registry = s.registry :=
  .write hs (hs.withFrames (hs.stored.held.slots.reserve hty)) (.refl _) rfl

theorem learn_holds {f : Facts → Facts} (hs : s.Fit p) (hs' : { s with facts := f s.facts }.Fit p) :
    (learn f).Holds p s fun _ s' => s'.registry = s.registry := .write hs hs' (.refl _) rfl

theorem noteSlot_holds (hs : s.Fit p) (node : Node) (slot : Slot) :
    (noteSlot node slot).Holds p s fun _ s' => s'.registry = s.registry :=
  learn_holds hs (hs.withFacts rfl rfl rfl)

theorem withLoopVar_holds (node : Node) (name : String) {x : CheckM Ty} {t : Trace x}
    (hs : s.Fit True) (h : ∀ s', s'.Fit True → FindsRegistered t s') :
    FindsRegistered (withLoopVar node name t) s := by
  have hint : ∀ r, Ty.int.Storable r := fun _ => ⟨trivial, by simp, by simp⟩
  refine Holds.bind (Q := fun _ _ => True)
    (.write hs (hs.withVars hs.stored.held.vars.enter) (.refl _) trivial) fun _ s₁ hs₁ _ _ => ?_
  refine (reserve_holds hs₁ (hint _)).bind fun slot s₂ hs₂ _ _ => ?_
  refine (noteSlot_holds hs₂ node slot).bind fun _ s₃ hs₃ _ _ => ?_
  refine Holds.bind (Q := fun _ _ => True)
    (.write hs₃ (hs₃.withVars (hs₃.stored.held.vars.bind (hint _))) (.refl _) trivial)
    fun _ s₄ hs₄ _ _ => ?_
  refine (h s₄ hs₄).bind fun a s₅ hs₅ _ ha => ?_
  refine Holds.bind (Q := fun _ s' => s'.registry = s₅.registry)
    (.write hs₅ (hs₅.withVars hs₅.stored.held.vars.leave) (.refl _) rfl)
    fun _ s₆ hs₆ _ hregistry => ?_
  exact .pure hs₆ (hregistry ▸ ha)

theorem inFunction_holds (frame : Nat) {x : CheckM Unit} {t : Trace x} (hs : s.Fit p)
    (h : ∀ s', s'.Fit p → s'.registry = s.registry → t.Holds p s' fun _ _ => True) :
    (inFunction frame t).Holds p s fun _ _ => True := by
  refine .getThen hs ?_
  refine Holds.bind (Q := fun _ s' => s'.registry = s.registry)
    (.write hs (hs.withFrames hs.stored.held.slots) (.refl _) rfl) fun _ s₁ hs₁ _ hregistry => ?_
  refine (h s₁ hs₁ hregistry).bind fun _ s₂ hs₂ _ _ => ?_
  refine Holds.bind (Q := fun _ _ => True)
    (.write hs₂ (hs₂.withFrames hs₂.stored.held.slots.leave) (.refl _) trivial)
    fun _ s₃ hs₃ _ _ => ?_
  refine .getThen hs₃ ?_
  cases s₃.frames.frames[frame]? with
  | some f => exact .observe _ hs₃ trivial
  | none => exact .pure hs₃ trivial

theorem declareVar_holds (node : Node) (name : String) (hs : s.Fit p) {ty : Ty}
    (hty : ty.Storable s.registry) : (declareVar node name ty).Holds p s fun _ _ => True := by
  refine (reserve_holds hs hty).bind fun slot s₁ hs₁ hle₁ _ => ?_
  refine (noteSlot_holds hs₁ node slot).bind fun _ s₂ hs₂ hle₂ _ => ?_
  refine .getThen hs₂ (.ite (fun _ => .observe _ hs₂ trivial) fun _ => ?_)
  have hty₂ := (hty.mono hle₁).mono hle₂
  exact .write hs₂ (hs₂.withVars (hs₂.stored.held.vars.bind hty₂)) (.refl _) trivial

theorem declareParams_holds (params : List Field) {types : List Ty} (hs : s.Fit p)
    (htypes : ∀ ty ∈ types, ty.Storable s.registry) :
    (declareParams params types).Holds p s fun _ _ => True := by
  induction params generalizing types s with
  | nil => exact .pure hs trivial
  | cons param params ih =>
    cases types with
    | nil => exact .pure hs trivial
    | cons ty types =>
      refine (declareVar_holds param.node param.name hs (htypes ty List.mem_cons_self)).bind
        fun _ s' hs' hle _ => ih hs' ?_
      exact fun other hother => (htypes other (List.mem_cons_of_mem _ hother)).mono hle

theorem declaredType_holds (node : Node) (typeName : Option String) (position : Position)
    (hs : s.Fit p) {init : Ty} (hinit : init.Registered s.registry) :
    (declaredType node init position typeName).Holds p s fun ty s' => ty.Storable s'.registry := by
  cases typeName with
  | some typeName =>
    refine (typeNamed_holds typeName node.span.start s hs).bind fun ty s₁ hs₁ _ hty => ?_
    exact .observeThen hs₁ fun s₂ hs₂ hregistry => .pure hs₂ (hregistry ▸ hty)
  | none =>
    refine .ite (fun _ => ?_) fun hvalue => ?_
    · exact .getThen hs (.observeThen hs fun s' hs' _ => .pure hs' ⟨trivial, by simp, by simp⟩)
    · exact .pure hs ⟨hinit, fun hnil => hvalue (.inl hnil), fun hvoid => hvalue (.inr hvoid)⟩

/-! Expressions -/

section answers
variable {r : Registry} {left right ty : Ty} {position : Position}

theorem typeOfBinary_registered (op : Operator) (left right : Ty) (position : Position) :
    ((CheckM.typeOfBinary op left right position).run s).1.Registered r := by
  unfold CheckM.typeOfBinary
  split
  · exact trivial
  split
  · unfold CheckM.typeOfEquality
    split
    · exact trivial
    split <;> exact trivial
  · unfold CheckM.typeOfOrder
    split <;> exact trivial

theorem typeOfRecord_registered (hty : ty.Registered r) (typeName : String)
    (fields : List CheckM.GivenField) (position : Position) :
    ((CheckM.typeOfRecord ty typeName fields position).run s).1.Registered r := by
  unfold CheckM.typeOfRecord
  split
  · exact trivial
  · rw [CheckM.run_get_bind]
    split
    · exact trivial
    split <;> exact hty
  · exact trivial

theorem typeOfArray_registered (hty : ty.Registered r) (typeName : String) (init : Ty)
    (position initPosition : Position) :
    ((CheckM.typeOfArray ty typeName init position initPosition).run s).1.Registered r := by
  unfold CheckM.typeOfArray
  split
  · exact trivial
  · exact hty
  · exact trivial

theorem typeOfBranches_registered (hleft : left.Registered r) (hright : right.Registered r)
    (position : Position) :
    ((CheckM.typeOfBranches left right position).run s).1.Registered r := by
  unfold CheckM.typeOfBranches
  rw [CheckM.run_bind]
  split
  · split
    · exact hright
    · exact hright
    · exact hleft
  · exact trivial

theorem typeOfBreak_registered (position : Position) :
    ((CheckM.typeOfBreak position).run s).1.Registered r := by
  unfold CheckM.typeOfBreak
  rw [CheckM.run_get_bind]
  split <;> exact trivial

theorem typeOfField_registered (hs : s.registry.WellFormed) (base : Ty) (name : String)
    (position : Position) :
    ((CheckM.typeOfField base name position).run s).1.Registered s.registry := by
  unfold CheckM.typeOfField
  rw [CheckM.run_get_bind]
  dsimp only
  split
  · exact trivial
  · split
    · next place ty hfield => exact (hs.field?_storable hfield).registered
    · exact trivial
  · exact trivial

theorem typeOfSubscript_registered (hs : s.registry.WellFormed) (base : Ty) (position : Position) :
    ((CheckM.typeOfSubscript base position).run s).1.Registered s.registry := by
  unfold CheckM.typeOfSubscript
  rw [CheckM.run_get_bind]
  split
  · exact trivial
  · next id =>
    change ((s.registry.element? (.array id)).getD .error).Registered s.registry
    cases helement : s.registry.element? (.array id) with
    | none => exact trivial
    | some element => exact (hs.element?_storable helement).registered
  · exact trivial

end answers

theorem noteExp_holds (node : Node) {x : CheckM Ty} {t : Trace x} (h : FindsRegistered t s) :
    FindsRegistered (noteExp node t) s := by
  refine h.bind fun ty s₁ hs₁ _ hty => ?_
  refine Holds.bind (learn_holds hs₁ (hs₁.noteExp node.id hty)) fun _ s₂ hs₂ _ hregistry => ?_
  exact .pure hs₂ (hregistry ▸ hty)

theorem noteVar_holds (node : Node) {x : CheckM Ty} {t : Trace x} (h : FindsRegistered t s) :
    FindsRegistered (noteVar node t) s := by
  refine h.bind fun ty s₁ hs₁ _ hty => ?_
  refine Holds.bind (learn_holds hs₁ (hs₁.noteVar node.id hty)) fun _ s₂ hs₂ _ hregistry => ?_
  exact .pure hs₂ (hregistry ▸ hty)

theorem typeOfSimple_holds (node : Node) (name : String) (hs : s.Fit True) :
    FindsRegistered (typeOfSimple node name) s := by
  refine .getThen hs ?_
  cases hfind : s.vars.find? name with
  | none => exact .observeThen hs fun s' hs' _ => .pure hs' trivial
  | some entry =>
    have hty := (hs.stored.held.vars.find? hfind).registered
    refine Holds.bind (learn_holds hs (hs.withFacts rfl rfl rfl)) fun _ s' hs' _ hregistry => ?_
    exact .pure hs' (hregistry ▸ hty)

theorem typeOfCall_holds (node : Node) (function : String) (args : List (Ty × Position))
    (hs : s.Fit True) : FindsRegistered (typeOfCall node function args) s := by
  refine .getThen hs ?_
  cases hfind : s.functions.find? function with
  | none => exact .observeThen hs fun s' hs' _ => .pure hs' trivial
  | some entry =>
    have hresult : entry.result.Registered s.registry := by
      rcases (hs.stored.held.functions.find? hfind).result with hvoid | hresult
      · rw [hvoid]
        exact trivial
      · exact hresult.registered
    refine Holds.bind (learn_holds hs (hs.withFacts rfl rfl rfl)) fun _ s₁ hs₁ _ hregistry => ?_
    rw [← hregistry] at hresult
    refine .ite (fun _ => ?_) fun _ => ?_
    · refine .observeThen hs₁ fun s₂ hs₂ hregistry₂ => ?_
      exact .observeThen hs₂ fun s₃ hs₃ hregistry₃ =>
        .pure hs₃ (hregistry₃ ▸ hregistry₂ ▸ hresult)
    · exact .observeThen hs₁ fun s₂ hs₂ hregistry₂ => .pure hs₂ (hregistry₂ ▸ hresult)

theorem observe_finds {x : CheckM Ty} (hx : Observes x) (hs : s.Fit True)
    (hty : (x.run s).1.Registered s.registry) : FindsRegistered (.observe hx) s :=
  .observe hx hs ((hx.reports s).registry ▸ hty)

theorem requireThen {x : CheckM Ty} {t : Trace x} (h : FindsRegistered t s) {expected : Ty}
    {position : Position} {g : CheckM β} {next : Trace g} {R : β → Checker → Prop}
    (hnext : ∀ s', s'.Fit True → s.registry.SizeLe s'.registry → next.Holds True s' R) :
    (t.bind fun ty => (require expected ty position).bind fun _ => next).Holds True s R := by
  refine h.bind fun ty s₁ hs₁ hle _ => .observeThen hs₁ fun s₂ hs₂ hregistry => ?_
  exact hnext s₂ hs₂ (hregistry ▸ hle)

-- Each part is checked in the state that the parts before it have made. The registry only grows in
-- the meantime, so that types found for earlier parts are still registered.
mutual

theorem inferExp_holds : ∀ (e : Exp) {s : Checker}, s.Fit True → FindsRegistered (inferExp e) s
  | .nil node, _, hs => noteExp_holds node (.pure hs trivial)
  | .int node _, _, hs => noteExp_holds node (.pure hs trivial)
  | .str node _, _, hs => noteExp_holds node (.pure hs trivial)
  | .var node target, _, hs => noteExp_holds node (inferVar_holds target hs)
  | .call node function args, _, hs =>
    noteExp_holds node ((inferExps_holds args hs).bind fun types _ hs' _ _ =>
      typeOfCall_holds node function types hs')
  | .binary node op left right, _, hs =>
    noteExp_holds node ((inferExp_holds left hs).bind fun leftType _ hs₁ _ _ =>
      (inferExp_holds right hs₁).bind fun rightType _ hs₂ _ _ =>
        observe_finds _ hs₂ (typeOfBinary_registered op leftType rightType _))
  | .record node typeName fields, s, hs =>
    noteExp_holds node ((typeNamed_holds typeName _ s hs).bind fun ty _ hs₁ _ hty =>
      (inferGiven_holds fields hs₁).bind fun given _ hs₂ hle _ =>
        observe_finds _ hs₂ (typeOfRecord_registered (hty.registered.mono hle) typeName given _))
  | .seq node exps, _, hs => by
    refine noteExp_holds node ((inferExps_holds exps hs).bind fun types _ hs' _ htypes => ?_)
    refine .pure hs' ?_
    cases hlast : types.getLast? with
    | none => exact trivial
    | some last => exact htypes last (List.mem_of_getLast? hlast)
  | .assign node target value, _, hs =>
    noteExp_holds node ((inferVar_holds target hs).bind fun _ _ hs₁ _ _ =>
      (inferExp_holds value hs₁).bind fun _ _ hs₂ _ _ =>
        .observeThen hs₂ fun _ hs₃ _ => .observeThen hs₃ fun _ hs₄ _ => .pure hs₄ trivial)
  | .ifThen node test body, _, hs =>
    noteExp_holds node (requireThen (inferExp_holds test hs) fun _ hs₁ _ =>
      requireThen (inferExp_holds body hs₁) fun _ hs₂ _ => .pure hs₂ trivial)
  | .ifThenElse node test yes no, _, hs =>
    noteExp_holds node (requireThen (inferExp_holds test hs) fun _ hs₁ _ =>
      (inferExp_holds yes hs₁).bind fun yesType _ hs₂ _ hyes =>
        (inferExp_holds no hs₂).bind fun noType _ hs₃ hle hno =>
          observe_finds _ hs₃ (typeOfBranches_registered (hyes.mono hle) hno _))
  | .whileDo node test body, _, hs =>
    noteExp_holds node (requireThen (inferExp_holds test hs) fun _ hs₁ _ =>
      requireThen (inLoop_holds hs₁ fun _ hs' => inferExp_holds body hs') fun _ hs₂ _ =>
        .pure hs₂ trivial)
  | .forTo node name lo hi body, _, hs =>
    noteExp_holds node (requireThen (inferExp_holds lo hs) fun _ hs₁ _ =>
      requireThen (inferExp_holds hi hs₁) fun _ hs₂ _ =>
        requireThen (withLoopVar_holds node name hs₂ fun _ hs₃ =>
          inLoop_holds hs₃ fun _ hs' => inferExp_holds body hs') fun _ hs₄ _ =>
            .pure hs₄ trivial)
  | .breakLoop node, _, hs => noteExp_holds node (observe_finds _ hs (typeOfBreak_registered _))
  | .letIn node decs body, _, hs =>
    noteExp_holds node (inScope_holds (Q := fun ty r => Ty.Registered r ty) hs fun _ hs₁ htypes _ =>
      (declareBlock_holds (hs.settled trivial).1 decs hs₁ htypes).bind fun _ _ hs₂ _ _ =>
        (checkBodies_holds decs hs₂).bind fun _ _ hs₃ _ _ => inferExp_holds body hs₃)
  | .array node typeName size init, s, hs =>
    noteExp_holds node ((typeNamed_holds typeName _ s hs).bind fun ty _ hs₁ _ hty =>
      requireThen (inferExp_holds size hs₁) fun _ hs₂ hle₂ =>
        (inferExp_holds init hs₂).bind fun initType _ hs₃ hle₃ _ =>
          observe_finds _ hs₃ (typeOfArray_registered ((hty.registered.mono hle₂).mono hle₃)
            typeName initType _ _))

theorem inferVar_holds : ∀ (v : Var) {s : Checker}, s.Fit True → FindsRegistered (inferVar v) s
  | .simple node name, _, hs => noteVar_holds node (typeOfSimple_holds node name hs)
  | .field node base name, _, hs =>
    noteVar_holds node ((inferVar_holds base hs).bind fun baseType _ hs₁ _ _ =>
      observe_finds _ hs₁ (typeOfField_registered hs₁.stored.registry baseType name _))
  | .subscript node base index, _, hs =>
    noteVar_holds node ((inferVar_holds base hs).bind fun baseType _ hs₁ _ _ =>
      requireThen (inferExp_holds index hs₁) fun _ hs₂ _ =>
        observe_finds _ hs₂ (typeOfSubscript_registered hs₂.stored.registry baseType _))

theorem inferExps_holds : ∀ (es : List Exp) {s : Checker}, s.Fit True →
    (inferExps es).Holds True s fun types s' => ∀ ty ∈ types, ty.1.Registered s'.registry
  | [], _, hs => .pure hs (by simp)
  | e :: es, _, hs =>
    (inferExp_holds e hs).bind fun _ _ hs₁ _ hty =>
      (inferExps_holds es hs₁).bind fun _ _ hs₂ hle htypes =>
        .pure hs₂ (List.forall_mem_cons.mpr ⟨hty.mono hle, htypes⟩)

theorem inferGiven_holds : ∀ (fields : List FieldExp) {s : Checker}, s.Fit True →
    (inferGiven fields).Holds True s fun _ _ => True
  | [], _, hs => .pure hs trivial
  | .mk _ _ value :: fields, _, hs =>
    (inferExp_holds value hs).bind fun _ _ hs₁ _ _ =>
      (inferGiven_holds fields hs₁).bind fun _ _ hs₂ _ _ => .pure hs₂ trivial

theorem checkBodies_holds : ∀ (decs : List Dec) {s : Checker}, s.Fit True →
    (checkBodies decs).Holds True s fun _ _ => True
  | [], _, hs => .pure hs trivial
  | .var node name typeName init :: decs, _, hs =>
    (inferExp_holds init hs).bind fun _ _ hs₁ _ hinit =>
      (declaredType_holds node typeName _ hs₁ hinit).bind fun _ _ hs₂ _ hty =>
        (declareVar_holds node name hs₂ hty).bind fun _ _ hs₃ _ _ => checkBodies_holds decs hs₃
  | .type _ _ _ :: decs, _, hs => checkBodies_holds decs hs
  | .function node _ params _ body :: decs, s, hs => by
    refine .getThen hs ?_
    cases hroutine : s.facts.routine? node.id with
    | none => exact checkBodies_holds decs hs
    | some info =>
      obtain ⟨id, -, hinfo⟩ := Option.bind_eq_some_iff.mp hroutine
      have hparams := (hs.stored.held.routines hinfo).params
      refine (inFunction_holds info.frame hs fun _ hs₁ hregistry₁ => ?_).bind
        fun _ _ hs' _ _ => checkBodies_holds decs hs'
      refine inScope_holds (Q := fun _ _ => True) hs₁ fun _ hs₂ _ hregistry₂ => ?_
      refine (declareParams_holds params hs₂ (hregistry₂ ▸ hregistry₁ ▸ hparams)).bind
        fun _ _ hs₃ _ _ => ?_
      exact (inferExp_holds body hs₃).bind fun _ _ hs₄ _ _ => .observe _ hs₄ trivial

end

theorem checkProgram_holds (e : Exp) (hs : s.Fit True) :
    (checkProgram e).Holds True s fun _ _ => True := by
  refine (inferExp_holds e hs).bind fun ty _ hs₁ _ _ => ?_
  refine Holds.bind (Q := fun _ _ => True)
    (.write hs₁ (hs₁.withFrames (hs₁.stored.held.slots.finalize _)) (.refl _) trivial)
    fun _ _ hs₂ _ _ => ?_
  exact .getThen hs₂ (.observeThen hs₂ fun _ hs₃ _ => .pure hs₃ trivial)

end Trace

end TigerLang
