import TigerLang.Proofs.History

/-! States in which a part of a program can be checked: they fit what the part stands in, the types
of the variables are kept in their slots, and the types of every block are those it calls for. -/

namespace TigerLang

def VarsStored (s : Checker) : Prop :=
  ∀ scope ∈ s.vars.scopes, ∀ entry ∈ scope, s.Stores entry.2.slot entry.2.ty

theorem Checker.Stores.grows {s s' : Checker} {base current : Nat} {touched : Nat → Prop}
    {slot : Slot} {ty : Ty} (h : s.Stores slot ty) (hgrows : s.Grows base current touched s') :
    s'.Stores slot ty := by
  obtain ⟨f, hf, hty⟩ := h
  obtain ⟨f', hf', hframe, -⟩ := hgrows.frames hf
  exact ⟨f', hf', hframe.slot hty⟩

theorem VarsStored.grows {s s' : Checker} {base current : Nat} {touched : Nat → Prop}
    (h : VarsStored s) (hvars : s'.vars = s.vars) (hgrows : s.Grows base current touched s') :
    VarsStored s' := by
  intro scope hscope entry hentry
  exact (h scope (hvars ▸ hscope) entry hentry).grows hgrows

theorem VarsStored.within {s s' : Checker} {scope : Scope VarBinding} (h : VarsStored s)
    (hvars : s'.vars = s.vars.within scope) {base current : Nat} {touched : Nat → Prop}
    (hgrows : s.Grows base current touched s')
    (hscope : ∀ entry ∈ scope, s'.Stores entry.2.slot entry.2.ty) : VarsStored s' := by
  intro other hother
  rw [hvars] at hother
  rcases List.mem_cons.mp hother with rfl | hother
  · exact hscope
  · exact fun entry hentry => (h other hother entry hentry).grows hgrows

theorem VarsStored.bind {s s' : Checker} {name : String} {entry : VarBinding} (h : VarsStored s)
    (hvars : s'.vars = s.vars.bind name entry) (hstores : s'.Stores entry.slot entry.ty)
    {base current : Nat} {touched : Nat → Prop} (hgrows : s.Grows base current touched s') :
    VarsStored s' := by
  have hold : ∀ scope ∈ s.vars.scopes, ∀ entry ∈ scope, s'.Stores entry.2.slot entry.2.ty :=
    fun scope hscope entry hentry => (h scope hscope entry hentry).grows hgrows
  have hnew : ∀ scope ∈ s.vars.scopes, ∀ found ∈ scope.bind name entry,
      s'.Stores found.2.slot found.2.ty := by
    intro scope hscope found hfound
    rcases Scope.mem_bind hfound with rfl | hmem
    · exact hstores
    · exact hold scope hscope found hmem
  intro scope hscope
  rw [hvars] at hscope
  rcases hinner : s.vars.inner with _ | ⟨first, rest⟩
  · simp only [Scopes.bind, hinner, Scopes.scopes, List.nil_append, List.mem_singleton] at hscope
    subst hscope
    exact hnew _ (by simp [Scopes.scopes])
  · simp only [Scopes.bind, hinner, Scopes.scopes, List.cons_append, List.mem_cons] at hscope
    rcases hscope with rfl | hscope
    · exact hnew _ (by simp [Scopes.scopes, hinner])
    · refine hold scope ?_
      rw [Scopes.scopes, hinner]
      exact List.mem_cons_of_mem _ hscope

theorem VarsStored.find? {s : Checker} (h : VarsStored s) {name : String} {entry : VarBinding}
    (hfind : s.vars.find? name = some entry) : s.Stores entry.slot entry.ty := by
  obtain ⟨scope, hscope, hentry⟩ := Scopes.mem_of_find? hfind
  exact h scope hscope _ hentry

structure Ready (around : List Surrounding) (s : Checker) : Prop where
  situated : Situated around s
  resolved : AllResolved s.types
  stored : VarsStored s
  types : TypeStack s.registry around s.types

theorem ready_initial : Ready [] .initial where
  situated := .initial
  resolved := allResolved_initial
  stored := by simp [VarsStored, Checker.initial, Scopes.scopes, Scopes.empty]
  types := .nil

theorem Ready.grows {around : List Surrounding} {s s' : Checker} {base current : Nat}
    {touched : Nat → Prop} (h : Ready around s) (henv : s.SameEnv s')
    (hgrows : s.Grows base current touched s')
    (hdisjoint : ∀ id ∈ surroundIds around, ¬ touched id) : Ready around s' where
  situated := by
    have hlater : Later [] (surroundIds around) s s' := .of_grows hgrows (by simp) hdisjoint
    exact h.situated.later henv hlater (List.Subset.refl _)
  resolved := henv.types.symm ▸ h.resolved
  stored := h.stored.grows henv.vars hgrows
  types := henv.types.symm ▸ h.types.mono hgrows.registry

theorem Stack.level {s : Checker} {around : List Surrounding} {vars : List (Scope VarBinding)}
    {functions : List (Scope FunBinding)} {active : List Nat}
    (h : Stack s around vars functions active) :
    ∃ f, s.frames.frames[active.head?.getD Frames.mainFrame]? = some f ∧
      f.level = functionDepth around := by
  induction h with
  | nil hframe hlevel => exact ⟨_, hframe, hlevel⟩
  | whileBody _ ih => exact ih
  | forBody _ _ ih => exact ih
  | functionBody hstack hinfo _ ih =>
    obtain ⟨f, p, g, hf, hlevel, -, hp, hg, hsucc⟩ := hinfo.frame
    obtain ⟨g', hg', hdepth⟩ := ih
    obtain rfl := Option.some.inj (hstack.frame.1.symm.trans hp)
    obtain rfl := Option.some.inj (hg'.symm.trans hg)
    exact ⟨f, hf, by rw [hlevel, hsucc, hdepth, functionDepth_functionBody]⟩
  | block _ _ _ _ ih => exact ih

theorem Situated.level {around : List Surrounding} {s : Checker} (h : Situated around s) :
    s.frames.level = functionDepth around := by
  obtain ⟨f, hf, hlevel⟩ := h.stack.level
  have hcurrent : s.frames.frames[s.frames.current]? = some f := hf
  rw [Frames.level, hcurrent]
  exact hlevel

theorem CheckM.reserve_slot {s : Checker} {f : Frame}
    (hf : s.frames.frames[s.frames.current]? = some f) (ty : Ty) :
    ((reserve ty).run s).1 = ⟨s.frames.current, f.level, f.slots.size⟩ := by
  change Slot.mk s.frames.current s.frames.level
    (((s.frames.frames[s.frames.current]?).map fun f => f.slots.size).getD 0) = _
  rw [Frames.level, hf]
  rfl

theorem CheckM.reserve_stores {s : Checker} {f : Frame}
    (hf : s.frames.frames[s.frames.current]? = some f) (ty : Ty) :
    ((reserve ty).run s).2.Stores ((reserve ty).run s).1 ty := by
  rw [reserve_slot hf]
  refine ⟨{ f with slots := f.slots.push ty }, ?_, Array.getElem?_push_size⟩
  change (s.frames.frames.modify s.frames.current fun f =>
    { f with slots := f.slots.push ty })[s.frames.current]? = _
  rw [Array.getElem?_modify, if_pos rfl, hf]
  rfl

theorem CheckM.declareVar_output (node : Node) (name : String) (ty : Ty) (s : Checker) :
    ((declareVar node name ty).run s).2.facts =
        { s.facts with slots := s.facts.slots.insert node.id ((reserve ty).run s).1 } ∧
      ((declareVar node name ty).run s).2.frames = ((reserve ty).run s).2.frames ∧
      ((declareVar node name ty).run s).2.registry = s.registry ∧
      (((declareVar node name ty).run s).2.vars = s.vars ∨
        ((declareVar node name ty).run s).2.vars =
          s.vars.bind name ⟨ty, ((reserve ty).run s).1, false⟩) := by
  rw [declareVar, run_bind, run_bind, defineVar_run]
  split
  · exact ⟨rfl, rfl, rfl, .inl rfl⟩
  · exact ⟨rfl, rfl, rfl, .inr rfl⟩

theorem VarsStored.declareVar {s : Checker} {f : Frame} (h : VarsStored s)
    (hs : AllResolved s.types)
    (hf : s.frames.frames[s.frames.current]? = some f) (node : Node) (name : String) (ty : Ty) :
    VarsStored ((CheckM.declareVar node name ty).run s).2 := by
  obtain ⟨hgrows, -⟩ := declareVar_grows hs node name ty
  obtain ⟨-, hframes, -, hvars | hvars⟩ := CheckM.declareVar_output node name ty s
  · exact h.grows hvars hgrows
  · refine h.bind hvars ?_ hgrows
    obtain ⟨f', hf', hty⟩ := CheckM.reserve_stores hf ty
    exact ⟨f', by rw [hframes]; exact hf', hty⟩

theorem TypeStack.congr_params {registry : Registry} {node : Node} {params params' : List Field}
    {around : List Surrounding} {types : Scopes TypeBinding}
    (h : TypeStack registry (.functionBody node params :: around) types) :
    TypeStack registry (.functionBody node params' :: around) types := by
  cases h with
  | functionBody h => exact .functionBody h

theorem TypeStack.congr_before {registry : Registry} {decs before before' : List Dec}
    {around : List Surrounding} {types : Scopes TypeBinding}
    (h : TypeStack registry (.block decs before :: around) types) :
    TypeStack registry (.block decs before' :: around) types := by
  cases h with
  | block h hdone hregistry => exact .block h hdone hregistry

theorem CheckM.declareHeadings_names (decs : List Dec) {s : Checker} (hs : AllResolved s.types) :
    ((declareHeadings decs).run s).2.types = s.types ∧
      ((declareHeadings decs).run s).2.vars = s.vars ∧
      ((declareHeadings decs).run s).2.registry = s.registry := by
  induction decs generalizing s with
  | nil => exact ⟨rfl, rfl, rfl⟩
  | cons d decs ih =>
    cases d with
    | var node name typeName init => exact ih hs
    | type node name definition => exact ih hs
    | function node name params result body =>
      obtain ⟨s₁, hreports, hrun⟩ := declareHeading_run hs node name params result
      have hhead : ((declareHeading node name params result).run s).2.types = s.types ∧
          ((declareHeading node name params result).run s).2.vars = s.vars ∧
          ((declareHeading node name params result).run s).2.registry = s.registry := by
        have hsame : s₁.vars = s.vars ∧ s₁.registry = s.registry := by
          rw [hreports.same]
          exact ⟨rfl, rfl⟩
        rw [hrun, enterFunction_run]
        split <;> exact ⟨hreports.types, hsame⟩
      obtain ⟨htypes, hvars, hregistry⟩ := ih (hhead.1.symm ▸ hs)
      exact ⟨htypes.trans hhead.1, hvars.trans hhead.2.1, hregistry.trans hhead.2.2⟩

namespace Ready
variable {around : List Surrounding} {s : Checker} {all before : List Dec}

theorem param {node : Node} {done : List Field} (h : Ready (.functionBody node done :: around) s)
    {param : Field} (hparam : param.node.id ∉ surroundIds (.functionBody node done :: around))
    (ty : Ty) : Ready (.functionBody node (done ++ [param]) :: around)
      ((CheckM.declareVar param.node param.name ty).run s).2 := by
  obtain ⟨-, f, hf, -⟩ := h.situated.current
  obtain ⟨-, -, -, htypes⟩ := declareVar_grows h.resolved param.node param.name ty
  obtain ⟨-, -, hregistry, -⟩ := CheckM.declareVar_output param.node param.name ty s
  refine ⟨h.situated.param h.resolved hparam ty, htypes.symm ▸ h.resolved,
    h.stored.declareVar h.resolved hf param.node param.name ty, ?_⟩
  rw [htypes, hregistry]
  exact h.types.congr_params

theorem var (h : Ready (.block all before :: around) s) {node : Node}
    (hnode : node.id ∉ surroundIds (.block all before :: around)) (name : String)
    (typeName : Option String) (init : Exp) (ty : Ty) :
    Ready (.block all (before ++ [.var node name typeName init]) :: around)
      ((CheckM.declareVar node name ty).run s).2 := by
  obtain ⟨-, f, hf, -⟩ := h.situated.current
  obtain ⟨-, -, -, htypes⟩ := declareVar_grows h.resolved node name ty
  obtain ⟨-, -, hregistry, -⟩ := CheckM.declareVar_output node name ty s
  refine ⟨h.situated.var h.resolved hnode name typeName init ty, htypes.symm ▸ h.resolved,
    h.stored.declareVar h.resolved hf node name ty, ?_⟩
  rw [htypes, hregistry]
  exact h.types.congr_before

theorem other (h : Ready (.block all before :: around) s) {d : Dec}
    (hd : ∀ n, varDec? [d] n = none) : Ready (.block all (before ++ [d]) :: around) s :=
  ⟨h.situated.other hd, h.resolved, h.stored, h.types.congr_before⟩

theorem function (h : Ready (.block all before :: around) s) {node : Node} {name : String}
    {params : List Field} {result : Option String} {body : Exp}
    (hmem : .function node name params result body ∈ all) :
    ∃ info, s.facts.routine? node.id = some info ∧ info.params.length = params.length ∧
      Ready (.functionBody node [] :: .block all before :: around)
        (Situated.functionEntered s info.frame) := by
  obtain ⟨info, hinfo, hlength, hentered⟩ := h.situated.function hmem
  refine ⟨info, hinfo, hlength, hentered, h.resolved.within (by simp), ?_, .functionBody h.types⟩
  have hgrows : s.Grows 0 0 (fun _ => False) (Situated.functionEntered s info.frame) :=
    .of_same (.refl _) rfl rfl List.prefix_rfl (by simp [Situated.functionEntered, Checker.entered])
  have hvars : (Situated.functionEntered s info.frame).vars = s.vars.within [] := rfl
  exact h.stored.within hvars hgrows (by simp)

theorem declareBlock (h : Ready around s) (decs : List Dec) (hnodup : (functionIds decs).Nodup)
    (hnew : ∀ id ∈ functionIds decs, id ∉ surroundIds around) :
    Ready (.block decs [] :: around) ((CheckM.declareBlock decs).run s.entered).2 := by
  obtain ⟨scope, hsettled⟩ := CheckM.declareTypes_resolveTypes h.resolved (s := s.entered) rfl decs
  have hentered : s.entered.registry = s.registry := rfl
  have hcanonical := hsettled.canonicalTypes h.resolved hentered
  obtain ⟨hblock, -⟩ := CheckM.declareBlock_works h.resolved decs fun id hid => hid
  set s₁ := ((CheckM.declareTypes decs >>= CheckM.resolveTypes).run s.entered).2
  have hinside : s.Inside s₁ := by
    have hworks : s.Works s.frames.frames.size (fun _ => True) s.entered s₁ :=
      CheckM.declareTypes_works h.resolved decs
    exact hworks.inside
  obtain ⟨htypes, hvars, hregistry⟩ := CheckM.declareHeadings_names decs hinside.resolved
  have hrun : ((CheckM.declareBlock decs).run s.entered).2 =
    ((CheckM.declareHeadings decs).run s₁).2 := rfl
  refine ⟨h.situated.declareBlock h.resolved decs hnodup hnew, hblock.inside.resolved, ?_, ?_⟩
  · have hvars' : ((CheckM.declareBlock decs).run s.entered).2.vars = s.entered.vars := by
      rw [hrun, hvars]
      exact hsettled.resolving.elsewhere.vars
    have hentered' : VarsStored s.entered := by
      have hgrows : s.Grows 0 0 (fun _ => False) s.entered :=
        .of_same (.refl _) rfl rfl List.prefix_rfl (by simp [Checker.entered])
      have hscope : s.entered.vars = s.vars.within [] := rfl
      exact h.stored.within hscope hgrows (by simp)
    exact hentered'.grows hvars' hblock.grows
  · have hdone : CanonicalTypes decs s (s.inBlock decs) := hcanonical.congr htypes hregistry
    exact .block (h.types.mono hblock.grows.registry) hdone (.refl _)

end Ready

structure Unentered (decs : List Dec) (s : Checker) : Prop where
  empty : ∀ d ∈ decs, d.isFunction → ∀ info, s.facts.routine? d.node.id = some info →
    info.frame ≠ s.frames.current ∧ ∃ f, s.frames.frames[info.frame]? = some f ∧ f.slots = #[]
  apart : decs.Pairwise fun d d' => d.isFunction → d'.isFunction → ∀ info info',
    s.facts.routine? d.node.id = some info → s.facts.routine? d'.node.id = some info' →
    info.frame ≠ info'.frame

theorem Unentered.tail {d : Dec} {decs : List Dec} {s : Checker} (h : Unentered (d :: decs) s) :
    Unentered decs s :=
  ⟨fun other hother => h.empty other (List.mem_cons_of_mem _ hother), h.apart.of_cons⟩

theorem Unentered.congr {decs : List Dec} {s s' : Checker} (h : Unentered decs s)
    (hcurrent : s'.frames.current = s.frames.current)
    (hroutine : ∀ d ∈ decs, d.isFunction → ∃ info, s.facts.routine? d.node.id = some info ∧
      s'.facts.routine? d.node.id = some info ∧
      ∀ f, s.frames.frames[info.frame]? = some f → s'.frames.frames[info.frame]? = some f) :
    Unentered decs s' where
  empty d hd hfunction found hfound := by
    obtain ⟨info, hinfo, hinfo', hframe⟩ := hroutine d hd hfunction
    obtain rfl := Option.some.inj (hinfo'.symm.trans hfound)
    obtain ⟨hne, f, hf, hempty⟩ := h.empty d hd hfunction info hinfo
    exact ⟨hcurrent ▸ hne, f, hframe f hf, hempty⟩
  apart := by
    refine h.apart.imp_of_mem fun {d d'} hd hd' hapart hfunction hfunction' a a' ha ha' => ?_
    obtain ⟨info, hinfo, hinfo', -⟩ := hroutine d hd hfunction
    obtain ⟨other, hother, hother', -⟩ := hroutine d' hd' hfunction'
    obtain rfl := Option.some.inj (hinfo'.symm.trans ha)
    obtain rfl := Option.some.inj (hother'.symm.trans ha')
    exact hapart hfunction hfunction' info other hinfo hother

theorem Unentered.cons {d : Dec} (hd : d.isFunction = false) {decs : List Dec} {s : Checker}
    (h : Unentered decs s) : Unentered (d :: decs) s where
  empty other hother hfunction := by
    rcases List.mem_cons.mp hother with rfl | hother
    · simp [hd] at hfunction
    · exact h.empty other hother hfunction
  apart := List.pairwise_cons.mpr ⟨fun _ _ hfunction => by simp [hd] at hfunction, h.apart⟩

theorem declareHeadings_unentered (decs : List Dec) {outer s : Checker} (h : outer.Inside s)
    (hcurrent : s.frames.current < s.frames.frames.size) (hnodup : (functionIds decs).Nodup) :
    Unentered decs ((CheckM.declareHeadings decs).run s).2 := by
  induction decs generalizing s with
  | nil => exact ⟨by simp, .nil⟩
  | cons d decs ih =>
    cases d with
    | var node name typeName init => exact (ih h hcurrent hnodup).cons rfl
    | type node name definition => exact (ih h hcurrent hnodup).cons rfl
    | function node name params result body =>
      rw [functionIds_function, List.nodup_cons] at hnodup
      have hhead : outer.Works s.frames.frames.size (· = node.id) s
          ((CheckM.declareHeading node name params result).run s).2 :=
        CheckM.declareHeading_works h (Nat.le_refl _) (by rfl) name params result
      obtain ⟨s₀, hreports, hrun⟩ := CheckM.declareHeading_run h.resolved node name params result
      obtain ⟨-, hframes₀⟩ := CheckM.enterFunction_output node name
        (params.map fun param => typeIn s.types param.typeName) (CheckM.resultIn s.types result) s₀
      have hroutine := CheckM.routine?_enterFunction node name
        (params.map fun param => typeIn s.types param.typeName) (CheckM.resultIn s.types result) s₀
      rw [← hrun] at hframes₀ hroutine
      set s₁ := ((CheckM.declareHeading node name params result).run s).2
      set info := s₀.newRoutine node name
        (params.map fun param => typeIn s.types param.typeName) (CheckM.resultIn s.types result)
      have hframe : info.frame = s.frames.frames.size := by
        change s₀.frames.frames.size = _
        rw [hreports.same]
      have hpushed : ∃ f, s₁.frames.frames[info.frame]? = some f ∧ f.slots = #[] :=
        ⟨_, by rw [hframes₀]; exact Array.getElem?_push_size, rfl⟩
      have hsize : s₁.frames.frames.size = s.frames.frames.size + 1 := by
        rw [hframes₀, ← hframe]
        exact Array.size_push _
      have hcurrent₁ : s₁.frames.current = s.frames.current :=
        hhead.inside.current.trans h.current.symm
      have hrest : outer.Works s₁.frames.frames.size (· ∈ functionIds decs) s₁
          ((CheckM.declareHeadings decs).run s₁).2 :=
        CheckM.declareHeadings_works decs hhead.inside (Nat.le_refl _) fun _ hid => hid
      have hfrom := CheckM.declareHeadings_framesFrom decs hhead.inside (Nat.le_refl _)
      have hentered := ih hhead.inside (by omega) hnodup.2
      -- The frame of this function lies below those of the functions that follow.
      set s₂ := ((CheckM.declareHeadings decs).run s₁).2
      have hcurrent₂ : s₂.frames.current = s.frames.current :=
        hrest.inside.current.trans h.current.symm
      have hlater : Later [] [node.id] s₁ s₂ :=
        .of_grows hrest.grows (by simp) fun id hid hmem => hnodup.1 (by simp_all)
      have hroutine₂ := hlater.routine? (List.mem_singleton_self _) hroutine
      change Unentered _ s₂
      refine ⟨fun d hd hfunction => ?_, List.pairwise_cons.mpr ⟨?_, hentered.apart⟩⟩
      · rcases List.mem_cons.mp hd with rfl | hd
        · intro found hfound
          obtain rfl := Option.some.inj (hroutine₂.symm.trans hfound)
          obtain ⟨f, hf, hempty⟩ := hpushed
          obtain ⟨f', hf', -, hkept⟩ := hrest.grows.frames hf
          have hne : info.frame ≠ outer.frames.current := by
            have := h.current
            omega
          obtain rfl := (hkept (by omega)).2 hne
          exact ⟨by omega, f', hf', hempty⟩
        · exact hentered.empty d hd hfunction
      · intro d hd _ hfunction found found' hfound hfound'
        obtain rfl := Option.some.inj (hroutine₂.symm.trans hfound)
        have hle := hfrom d hd hfunction found' hfound'
        omega

end TigerLang
