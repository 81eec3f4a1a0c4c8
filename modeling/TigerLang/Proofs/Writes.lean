import TigerLang.Proofs.Ready
import TigerLang.Proofs.Visits

/-! Checking a program has a history: what there is to be written down about each part is written
down exactly once, in a state that fits what the part stands in. -/

namespace TigerLang

def Unknown (ids : List Nat) (s : Checker) : Prop := ∀ id ∈ ids, Facts.empty.AgreeAt s.facts id

theorem Unknown.subset {ids ids' : List Nat} {s : Checker} (h : Unknown ids s) (hsub : ids' ⊆ ids) :
    Unknown ids' s := fun id hid => h id (hsub hid)

theorem Unknown.grows {ids : List Nat} {base current : Nat} {touched : Nat → Prop} {s s' : Checker}
    (h : Unknown ids s) (hgrows : s.Grows base current touched s')
    (hids : ∀ id ∈ ids, ¬ touched id) : Unknown ids s' :=
  fun id hid => (h id hid).trans (hgrows.facts (hids id hid))

namespace History
variable {s s' s'' : Checker} {marks : Multiset Mark}

theorem aside (hfacts : s'.facts = s.facts) (hframes : s'.frames.frames = s.frames.frames)
    (hregistry : s.registry.Extends s'.registry) : History s 0 s' :=
  .step (.aside hfacts hframes hregistry)

theorem of_reports (h : s.Reports s') : History s 0 s' :=
  aside (by rw [h.same]) (by rw [h.same]) (by rw [h.same]; exact .refl _)

theorem before (h : History s' marks s'') (h' : History s 0 s') : History s marks s'' := by
  simpa using h'.append h

theorem after (h : History s marks s') (h' : History s' 0 s'') : History s marks s'' := by
  simpa using h.append h'

theorem expTypes_eq_none (h : History s marks s') {id : Nat} (hnone : s.facts.expTypes[id]? = none)
    (hmem : .exp id ∉ marks) : s'.facts.expTypes[id]? = none := by
  have hnew : ∀ ty, s'.facts.expTypes[id]? = some ty → .exp id ∈ 0 + marks := by
    refine h.keeps (P := fun marks s => ∀ ty, s.facts.expTypes[id]? = some ty → .exp id ∈ marks) ?_
      (by simp [hnone])
    intro before s marks s' hs hstep ty hty
    rcases hstep.of_expTypes hty with hold | hmem
    · exact Multiset.mem_add.mpr (.inl (hs ty hold))
    · exact Multiset.mem_add.mpr (.inr hmem)
  rw [zero_add] at hnew
  exact Option.eq_none_iff_forall_ne_some.mpr fun ty hty => hmem (hnew ty hty)

end History

/-- The action writes down `marks`. What it checks stands in `around`, with its numbers from `ids`.
It may also note something about those in `own`, but not that they are expressions. -/
structure Writes {α : Type} (around : List Surrounding) (own ids : List Nat) (x : CheckM α)
    (marks : Multiset Mark) : Prop where
  keeps : Keeps (· ∈ own ++ ids) x
  exps : ∀ {id}, .exp id ∈ marks → id ∈ ids
  history : Fresh around (own ++ ids) → ∀ {s}, Ready around s → Unknown (own ++ ids) s →
    History s marks (x.run s).2

namespace Writes
variable {α β : Type} {around : List Surrounding} {own ids ids' : List Nat} {x : CheckM α}
  {f : α → CheckM β} {marks marks' : Multiset Mark}

theorem of_onlyReports (h : OnlyReports x) : Writes around [] [] x 0 where
  keeps := .of_onlyReports h
  exps := by simp
  history _ _ hready _ := .of_reports (h _ hready.resolved)

theorem bind (hx : Writes around [] ids x marks) (hf : ∀ a, Writes around own ids' (f a) marks') :
    Writes around own (ids ++ ids') (x >>= f) (marks + marks') where
  keeps := by
    refine (hx.keeps.mono fun id hid => ?_).bind fun a => (hf a).keeps.mono fun id hid => ?_
    · exact List.mem_append_right _ (List.mem_append_left _ hid)
    · rcases List.mem_append.mp hid with hid | hid
      · exact List.mem_append_left _ hid
      · exact List.mem_append_right _ (List.mem_append_right _ hid)
  exps hid := by
    rcases Multiset.mem_add.mp hid with hid | hid
    · exact List.mem_append_left _ (hx.exps hid)
    · exact List.mem_append_right _ ((hf (x.run .initial).1).exps hid)
  history hfresh s hready hunknown := by
    have hkeeps := hx.keeps s hready.resolved
    obtain ⟨-, hrest, hapart⟩ := List.nodup_append.mp hfresh.nodup
    obtain ⟨-, -, hapart'⟩ := List.nodup_append.mp hrest
    have hfirst : ids.Sublist (own ++ (ids ++ ids')) := by simp
    have hsecond : (own ++ ids').Sublist (own ++ (ids ++ ids')) := by simp
    have hready' : Ready around (x.run s).2 := by
      refine hready.grows hkeeps.env hkeeps.grows fun id hid htouched => hfresh.new id ?_ hid
      simpa using .inr (.inl htouched)
    have hunknown' : Unknown (own ++ ids') (x.run s).2 := by
      refine (hunknown.subset hsecond.subset).grows hkeeps.grows fun id hid htouched => ?_
      have htouched : id ∈ ids := by simpa using htouched
      rcases List.mem_append.mp hid with hid | hid
      · exact hapart id hid id (List.mem_append_left _ htouched) rfl
      · exact hapart' id htouched id hid rfl
    exact (hx.history (hfresh.sublist hfirst) hready (hunknown.subset hfirst.subset)).append
      ((hf _).history (hfresh.sublist hsecond) hready' hunknown')

theorem afterReports (hx : OnlyReports x) (hf : ∀ a, Writes around own ids (f a) marks) :
    Writes around own ids (x >>= f) marks := by
  simpa using (of_onlyReports hx).bind hf

theorem andThen (hx : Writes around own ids x marks) (hkeeps : ∀ a, Keeps (· ∈ own ++ ids) (f a))
    (hf : ∀ a s, AllResolved s.types → History s 0 ((f a).run s).2) :
    Writes around own ids (x >>= f) marks where
  keeps := hx.keeps.bind hkeeps
  exps := hx.exps
  history hfresh s hready hunknown := by
    have hresolved : AllResolved (x.run s).2.types :=
      (hx.keeps s hready.resolved).resolved hready.resolved
    exact (hx.history hfresh hready hunknown).after (hf _ _ hresolved)

theorem thenReports (hx : Writes around own ids x marks) (hf : ∀ a, OnlyReports (f a)) :
    Writes around own ids (x >>= f) marks :=
  hx.andThen (fun a => .of_onlyReports (hf a)) fun a s hs => .of_reports (hf a s hs)

theorem exp {e : Exp} {node : Node} {find : CheckM Ty}
    (hcheck : CheckM.inferExp e = CheckM.noteExp node find) (hids : e.ids = node.id :: ids)
    (hown : own.Sublist [node.id]) (hmarks : total (e.places around) = {.exp node.id} + marks)
    (h : Writes around own ids find marks) :
    Writes around [] e.ids (CheckM.inferExp e) (total (e.places around)) := by
  rw [hmarks, add_comm]
  refine ⟨CheckM.inferExp_keeps e, fun hid => ?_, fun hfresh {s} hready hunknown => ?_⟩
  · rw [hids]
    rcases Multiset.mem_add.mp hid with hid | hid
    · exact List.mem_cons_of_mem _ (h.exps hid)
    · exact List.mem_cons.mpr (.inl (Mark.exp.inj (Multiset.mem_singleton.mp hid)))
  · rw [List.nil_append, hids] at hfresh hunknown
    have hsub : (own ++ ids).Sublist (node.id :: ids) := hown.append (List.Sublist.refl ids)
    have hfind := h.history (hfresh.sublist hsub) hready (hunknown.subset hsub.subset)
    have hnew : (find.run s).2.facts.expTypes[node.id]? = none :=
      hfind.expTypes_eq_none (hunknown node.id List.mem_cons_self).expTypes
        fun hmem => (List.nodup_cons.mp hfresh.nodup).1 (h.exps hmem)
    rw [hcheck]
    exact hfind.append (.step (.exp hnew rfl rfl rfl))

theorem var {v : Var} {node : Node} {find : CheckM Ty}
    (hcheck : CheckM.inferVar v = CheckM.noteVar node find) (hids : v.ids = node.id :: ids)
    (hmarks : total (v.places around) = {.var node.id} + marks)
    (h : Writes around [] ids find marks) :
    Writes around [] v.ids (CheckM.inferVar v) (total (v.places around)) := by
  rw [hmarks, add_comm]
  refine ⟨CheckM.inferVar_keeps v, fun hid => ?_, fun hfresh {s} hready hunknown => ?_⟩
  · rw [hids]
    rcases Multiset.mem_add.mp hid with hid | hid
    · exact List.mem_cons_of_mem _ (h.exps hid)
    · cases Multiset.mem_singleton.mp hid
  · rw [List.nil_append, hids] at hfresh hunknown
    have hsub : ([] ++ ids).Sublist (node.id :: ids) := List.sublist_cons_self _ _
    have hfind := h.history (hfresh.sublist hsub) hready (hunknown.subset hsub.subset)
    have hagree : Facts.empty.AgreeAt (find.run s).2.facts node.id := by
      refine (hunknown node.id List.mem_cons_self).trans
        ((h.keeps s hready.resolved).grows.facts fun htouched => ?_)
      exact (List.nodup_cons.mp hfresh.nodup).1 htouched
    rw [hcheck]
    exact hfind.append (.step (.var hagree.varTypes hagree.varUses rfl rfl rfl))

theorem simple (node : Node) (name : String) :
    Writes around [] [node.id] (CheckM.inferVar (.simple node name)) {.var node.id} where
  keeps := CheckM.inferVar_keeps (.simple node name)
  exps hid := by cases Multiset.mem_singleton.mp hid
  history hfresh s hready hunknown := by
    have hagree := hunknown node.id (by simp)
    rw [CheckM.inferVar, CheckM.noteVar, CheckM.run_bind, CheckM.typeOfSimple, CheckM.run_get_bind]
    cases hfind : s.vars.find? name with
    | none =>
      have hreport := Checker.Reports.report s (.undefinedName .variable name) node.span.start
      set s₁ := ((CheckM.report (.undefinedName .variable name) node.span.start).run s).2
      have hagree₁ : Facts.empty.AgreeAt s₁.facts node.id := hagree
      have hvar : Step s₁ {.var node.id} { s₁ with
          facts := { s₁.facts with varTypes := s₁.facts.varTypes.insert node.id .error } } :=
        .var hagree₁.varTypes hagree₁.varUses rfl rfl rfl
      exact (History.step hvar).before (.of_reports hreport)
    | some entry =>
      exact .step (.use hagree.varTypes (hready.stored.find? hfind) rfl rfl rfl)

theorem whileBody (h : Writes (.whileBody :: around) own ids x marks) :
    Writes around own ids x marks where
  keeps := h.keeps
  exps := h.exps
  history hfresh _ hready :=
    h.history ⟨hfresh.nodup, hfresh.new⟩ ⟨hready.situated.whileBody, hready.resolved, hready.stored,
      .whileBody hready.types⟩

theorem inLoop (h : Writes around own ids x marks) :
    Writes around own ids (CheckM.inLoop x) marks where
  keeps := h.keeps.inLoop
  exps := h.exps
  history hfresh s hready hunknown := by
    set looping : Checker := { s with loopDepth := s.loopDepth + 1 }
    have hlater : Later [] (surroundIds around) s looping := .of_same rfl rfl List.prefix_rfl
    have hlooping : Ready around looping := by
      refine ⟨⟨?_, hready.situated.vars, hready.situated.functions⟩, hready.resolved, hready.stored,
        hready.types⟩
      exact hready.situated.stack.later hlater (List.Subset.refl _)
    have hstart : History s 0 looping := .aside rfl rfl (.refl _)
    have hend : History (x.run looping).2 0 ((CheckM.inLoop x).run s).2 := .aside rfl rfl (.refl _)
    exact ((h.history hfresh hlooping hunknown).before hstart).after hend

end Writes

theorem declareVar_history {s : Checker} {around : List Surrounding} {f : Frame} {node : Node}
    {ty : Ty} {role : Role} (hframe : frameOf? s.facts around = some s.frames.current)
    (hf : s.frames.frames[s.frames.current]? = some f) (hnew : s.facts.slots[node.id]? = none)
    (hfits : role.Fits s around f.slots.size ty) (name : String) :
    History s {.slot around node.id role} ((CheckM.declareVar node name ty).run s).2 := by
  obtain ⟨hfacts, hframes, hregistry, -⟩ := CheckM.declareVar_output node name ty s
  rw [CheckM.reserve_slot hf] at hfacts
  exact .step (.slot hnew hframe hf hfits hfacts (congrArg Frames.frames hframes) hregistry)

namespace Writes
variable {α : Type} {around : List Surrounding} {ids : List Nat} {x : CheckM α}
  {marks : Multiset Mark}

theorem withLoopVar {node : Node} {name : String}
    (h : Writes (.forBody node name :: around) [] ids x marks) :
    Writes around [node.id] ids (CheckM.withLoopVar node name x)
      ({.slot around node.id .loop} + marks) where
  keeps := .withLoopVar name (h.keeps.mono fun _ => List.mem_cons_of_mem _) List.mem_cons_self
  exps hid := by
    rcases Multiset.mem_add.mp hid with hid | hid
    · cases Multiset.mem_singleton.mp hid
    · exact h.exps hid
  history hfresh s hready hunknown := by
    obtain ⟨hnode, -⟩ := List.nodup_cons.mp hfresh.nodup
    obtain ⟨hframe, f, hf, -⟩ := hready.situated.current
    obtain ⟨hgrows, htypes⟩ := Situated.keeps_loopEntered hready.resolved node name
    set entered : Checker := { s with vars := s.vars.enter }
    have hf' : entered.frames.frames[entered.frames.current]? = some f := hf
    have hslot := CheckM.reserve_slot hf' .int
    have hready' : Ready (.forBody node name :: around) (Situated.loopEntered s node name) := by
      refine ⟨hready.situated.forBody hready.resolved (hfresh.new node.id List.mem_cons_self) name,
        htypes.symm ▸ hready.resolved, ?_, htypes.symm ▸ .forBody hready.types⟩
      have hvars : (Situated.loopEntered s node name).vars =
          s.vars.within [(name, ⟨.int, ((CheckM.reserve .int).run entered).1, true⟩)] := rfl
      refine hready.stored.within hvars hgrows fun entry hentry => ?_
      obtain rfl := List.mem_singleton.mp hentry
      exact CheckM.reserve_stores hf' .int
    have hunknown' : Unknown ([] ++ ids) (Situated.loopEntered s node name) := by
      refine (hunknown.subset (List.subset_cons_self _ _)).grows hgrows fun id hid heq => ?_
      exact hnode (heq ▸ hid)
    have hslotted : History s {.slot around node.id .loop} (Situated.loopEntered s node name) := by
      have hfits : Role.Fits s around f.slots.size .int .loop := rfl
      refine .step (.slot (hunknown node.id List.mem_cons_self).slots hframe hf hfits ?_ rfl rfl)
      rw [← hslot]
      rfl
    have hend : History (x.run (Situated.loopEntered s node name)).2 0
        ((CheckM.withLoopVar node name x).run s).2 := .aside rfl rfl (.refl _)
    exact (hslotted.append (h.history (hfresh.forBody name) hready' hunknown')).after hend

end Writes

theorem CheckM.typeOfCall_history {s : Checker} (hs : AllResolved s.types) (node : Node)
    (function : String) (args : List (Ty × Position)) :
    History s 0 ((typeOfCall node function args).run s).2 := by
  rw [typeOfCall, run_get_bind]
  split
  · exact .of_reports ((OnlyReports.report_then _ _ (.pure _)) s hs)
  · next entry _ =>
    set s₁ : Checker :=
      { s with facts := { s.facts with calls := s.facts.calls.insert node.id entry.target } }
    have hlearned : History s 0 s₁ := .step (.aside rfl rfl (.refl _))
    have hrest : OnlyReports (do
        if entry.params.length ≠ args.length then
          report (.arityMismatch entry.params.length args.length) node.span.start
        checkArgs entry.params args
        return entry.result) := by
      split
      · exact .report_then _ _ ((checkArgs_onlyReports _ _).bind fun _ => .pure _)
      · exact (checkArgs_onlyReports _ _).bind fun _ => .pure _
    exact hlearned.after (.of_reports (hrest s₁ hs))

theorem declareParams_history {s : Checker} {around : List Surrounding} {node : Node}
    {info : Routine} {f : Frame} (all done params : List Field) (before types : List Ty)
    (h : Ready (.functionBody node done :: around) s)
    (hinfo : s.facts.routine? node.id = some info) (htypes : info.params = before ++ types)
    (hbefore : before.length = done.length) (hlength : types.length = params.length)
    (hf : s.frames.frames[s.frames.current]? = some f) (hsize : f.slots.size = done.length)
    (hnodup : (params.map (·.node.id)).Nodup)
    (hnew : ∀ param ∈ params, param.node.id ∉ surroundIds (.functionBody node done :: around))
    (hunknown : Unknown (params.map (·.node.id)) s) :
    Ready (.functionBody node (done ++ params) :: around)
        ((CheckM.declareParams params types).run s).2 ∧
      History s ↑(params.mapIdx fun i param => Mark.slot (.functionBody node all :: around)
          param.node.id (.param node.id (done.length + i)))
        ((CheckM.declareParams params types).run s).2 := by
  induction params generalizing s done before types f with
  | nil =>
    rw [List.append_nil]
    exact ⟨h, .aside rfl rfl (.refl _)⟩
  | cons param params ih =>
    cases types with
    | nil => simp at hlength
    | cons ty types =>
      rw [List.map_cons, List.nodup_cons] at hnodup
      have hframe : frameOf? s.facts (.functionBody node all :: around) = some s.frames.current :=
        h.situated.current.1
      have hplace : info.params[done.length]? = some ty := by
        rw [htypes, ← hbefore, List.getElem?_append_right (Nat.le_refl _), Nat.sub_self]
        rfl
      have hfits : Role.Fits s (.functionBody node all :: around) f.slots.size ty
          (.param node.id done.length) := ⟨hsize, info, hinfo, hplace⟩
      have hfirst := declareVar_history hframe hf (hunknown _ List.mem_cons_self).slots hfits
        param.name
      obtain ⟨hgrows, -⟩ := declareVar_grows h.resolved param.node param.name ty
      obtain ⟨hfacts₁, hframes₁, -⟩ := CheckM.declareVar_output param.node param.name ty s
      have hready₁ := h.param (hnew param List.mem_cons_self) ty
      set s₁ := ((CheckM.declareVar param.node param.name ty).run s).2
      have hinfo₁ : s₁.facts.routine? node.id = some info := by
        rw [hfacts₁]
        exact hinfo
      have hf₁ : s₁.frames.frames[s₁.frames.current]? =
          some { f with slots := f.slots.push ty } := by
        rw [hframes₁]
        change (s.frames.frames.modify s.frames.current fun f =>
          { f with slots := f.slots.push ty })[s.frames.current]? = _
        rw [Array.getElem?_modify, if_pos rfl, hf]
        rfl
      have hne : ∀ id ∈ params.map (·.node.id), id ≠ param.node.id :=
        fun id hid heq => hnodup.1 (heq ▸ hid)
      have hnew₁ : ∀ other ∈ params,
          other.node.id ∉ surroundIds (.functionBody node (done ++ [param]) :: around) := by
        intro other hother
        have hold := hnew other (List.mem_cons_of_mem _ hother)
        have hother := hne _ (List.mem_map_of_mem hother)
        simp only [surroundIds, List.flatMap_cons, Surrounding.ids, List.map_append, List.map_cons,
          List.map_nil, List.mem_append, List.mem_cons, List.not_mem_nil, or_false,
          not_or] at hold ⊢
        exact ⟨⟨hold.1.1, hold.1.2, hother⟩, hold.2⟩
      obtain ⟨hready₂, hrest⟩ := ih (done ++ [param]) (before ++ [ty]) types hready₁ hinfo₁
        (by simp [htypes]) (by simp [hbefore]) (by simpa using hlength) hf₁ (by simp [hsize])
        hnodup.2 hnew₁ ((hunknown.subset (List.subset_cons_self _ _)).grows hgrows hne)
      rw [List.append_cons]
      refine ⟨hready₂, ?_⟩
      have hmarks : (↑((param :: params).mapIdx fun i other =>
            Mark.slot (.functionBody node all :: around) other.node.id
              (.param node.id (done.length + i))) : Multiset Mark) =
          {.slot (.functionBody node all :: around) param.node.id (.param node.id done.length)} +
            ↑(params.mapIdx fun i other => Mark.slot (.functionBody node all :: around)
              other.node.id (.param node.id ((done ++ [param]).length + i))) := by
        rw [List.mapIdx_cons, ← Multiset.cons_coe, ← Multiset.singleton_add]
        simp only [List.length_append, List.length_singleton, Nat.add_zero, Nat.add_assoc,
          Nat.add_comm 1]
      rw [hmarks]
      exact hfirst.append hrest

theorem declareHeading_history {s : Checker} {around : List Surrounding} {done : List Dec}
    (h : Situated (.block done [] :: around) s) (hs : AllResolved s.types) {node : Node}
    (hnew : s.facts.routineOf[node.id]? = none) (name : String) (params : List Field)
    (result : Option String) (all before : List Dec) :
    History s {.routine (.block all before :: around) node.id name}
      ((CheckM.declareHeading node name params result).run s).2 := by
  obtain ⟨s₁, hreports, hrun⟩ := CheckM.declareHeading_run hs node name params result
  have hsituated₁ : Situated (.block done [] :: around) s₁ := by
    have hkeeps : s.Keeps (fun _ => False) s₁ := .of_reports hreports
    exact h.keeps hkeeps (by simp)
  have hnew₁ : s₁.facts.routineOf[node.id]? = none := by
    rw [hreports.same]
    exact hnew
  rw [hrun]
  set types := params.map fun param => typeIn s.types param.typeName
  set ty := CheckM.resultIn s.types result
  obtain ⟨hfacts, hframes⟩ := CheckM.enterFunction_output node name types ty s₁
  have hregistry : ((CheckM.enterFunction node name types ty).run s₁).2.registry = s₁.registry := by
    rw [CheckM.enterFunction_run]
    split <;> rfl
  have henter : Step s₁ {.routine (.block all before :: around) node.id name}
      ((CheckM.enterFunction node name types ty).run s₁).2 :=
    .routine hnew₁ hsituated₁.current.1 hsituated₁.level hfacts (congrArg Frames.frames hframes)
      hregistry
  exact (History.step henter).before (.of_reports hreports)

theorem declareHeadings_history (decs : List Dec) {outer s : Checker} {around : List Surrounding}
    {done : List Dec} (h : Situated (.block done [] :: around) s) (hinside : outer.Inside s)
    (hnodup : (functionIds decs).Nodup)
    (hnew : ∀ id ∈ functionIds decs, id ∉ surroundIds (.block done [] :: around))
    (hunknown : Unknown (functionIds decs) s) (all before : List Dec) :
    History s ↑(Dec.collect Dec.headingMarks around all before decs)
      ((CheckM.declareHeadings decs).run s).2 := by
  induction decs generalizing s done before with
  | nil => exact .aside rfl rfl (.refl _)
  | cons d decs ih =>
    cases d with
    | var node name typeName init => exact ih h hinside hnodup hnew hunknown _
    | type node name definition => exact ih h hinside hnodup hnew hunknown _
    | function node name params result body =>
      rw [functionIds_function] at hnodup hnew hunknown
      rw [List.nodup_cons] at hnodup
      have hfirst := declareHeading_history h hinside.resolved
        (hunknown _ List.mem_cons_self).routineOf name params result all before
      have hsituated₁ := h.headings [.function node name params result body] hinside.resolved
        (List.nodup_singleton _) fun id hid =>
          hnew id (List.mem_cons.mpr (.inl (List.mem_singleton.mp hid)))
      have hwork : outer.Works 0 (· = node.id) s
          ((CheckM.declareHeading node name params result).run s).2 :=
        CheckM.declareHeading_works hinside (Nat.zero_le _) (by rfl) name params result
      have hne : ∀ id ∈ functionIds decs, id ≠ node.id := fun id hid heq => hnodup.1 (heq ▸ hid)
      refine hfirst.append (ih hsituated₁ hwork.inside hnodup.2 (fun id hid => ?_)
        ((hunknown.subset (List.subset_cons_self _ _)).grows hwork.grows hne) _)
      have hold := hnew id (List.mem_cons_of_mem _ hid)
      simpa [surroundIds, Surrounding.ids, functionIds_append, functionIds_function, hne id hid]
        using hold

namespace CheckM

theorem inFunction_output (frame : Nat) (x : CheckM Unit) (s : Checker) :
    let s₁ := (x.run { s with frames := s.frames.enter frame, loopDepth := 0 }).2
    ((inFunction frame x).run s).2.facts = s₁.facts ∧
      ((inFunction frame x).run s).2.frames = s₁.frames.leave ∧
      ((inFunction frame x).run s).2.registry = s₁.registry := by
  intro s₁
  rw [(inFunction_reports frame x s).1.same]
  exact ⟨rfl, rfl, rfl⟩

theorem checkFunction_output {s : Checker} {id : Nat} {info : Routine}
    (hinfo : s.facts.routine? id = some info) (params : List Field) (result : Option String)
    (body : Exp) :
    let s₁ := ((declareParams params info.params).run (Situated.functionEntered s info.frame)).2
    let s₂ := ((inferExp body).run s₁).2
    AllResolved s₂.types →
    ((checkFunction id params result body).run s).2.facts = s₂.facts ∧
      ((checkFunction id params result body).run s).2.frames = s₂.frames.leave ∧
      ((checkFunction id params result body).run s).2.registry = s₂.registry := by
  intro s₁ s₂ hs₂
  rw [checkFunction, run_get_bind, hinfo]
  obtain ⟨hfacts, hframes, hregistry⟩ := inFunction_output info.frame (inScope do
    declareParams params info.params
    let bodyType ← inferExp body
    let expected := if result.isSome then info.result else .void
    discard (require expected bodyType body.start)) s
  set s₃ := ((discard (require (if result.isSome then info.result else .void)
    ((inferExp body).run s₁).1 body.start) : CheckM Unit).run s₂).2
  have hsame : s₃.facts = s₂.facts ∧ s₃.frames = s₂.frames ∧ s₃.registry = s₂.registry := by
    have hreports : s₂.Reports s₃ := (OnlyReports.require _ _ _).discard s₂ hs₂
    rw [hreports.same]
    exact ⟨rfl, rfl, rfl⟩
  exact ⟨hfacts.trans hsame.1, hframes.trans (congrArg Frames.leave hsame.2.1),
    hregistry.trans hsame.2.2⟩

theorem checkFunction_frames {s : Checker} {id : Nat} {info : Routine} (hs : AllResolved s.types)
    (hinfo : s.facts.routine? id = some info) (params : List Field) (result : Option String)
    (body : Exp) {i : Nat} {f : Frame} (hf : s.frames.frames[i]? = some f) (hne : i ≠ info.frame) :
    ((checkFunction id params result body).run s).2.frames.frames[i]? = some f := by
  obtain ⟨hlt, -⟩ := Array.getElem?_eq_some_iff.mp hf
  set entered := Situated.functionEntered s info.frame
  have hparams : Checker.Works { s with frames := s.frames.enter info.frame, loopDepth := 0 }
      s.frames.frames.size (fun _ => True) entered
      ((declareParams params info.params).run entered).2 :=
    declareParams_works params info.params (Checker.inside_entered hs) (Nat.le_refl _)
      fun _ _ => trivial
  set s₁ := ((declareParams params info.params).run entered).2
  have hbody := inferExp_keeps body s₁ hparams.inside.resolved
  obtain ⟨-, hframes, -⟩ := checkFunction_output hinfo params result body
    (hbody.resolved hparams.inside.resolved)
  set s₂ := ((inferExp body).run s₁).2
  have hactive : s₂.frames.active = info.frame :: s.frames.active :=
    hbody.env.active.trans hparams.inside.active
  have hcurrent : s₁.frames.current = info.frame := hparams.inside.current
  obtain ⟨f₁, hf₁, -, hkept₁⟩ := hparams.grows.frames hf
  obtain rfl := (hkept₁ hlt).2 hne
  obtain ⟨f₂, hf₂, -, hkept₂⟩ := hbody.grows.frames hf₁
  obtain rfl := (hkept₂ (Nat.lt_of_lt_of_le hlt hparams.grows.size_le)).2 (hcurrent.symm ▸ hne)
  rw [hframes, Frames.leave, hactive]
  change (s₂.frames.frames.modify info.frame _)[i]? = _
  rw [Array.getElem?_modify, if_neg fun heq => hne heq.symm, hf₂]

end CheckM

/-- What is written down about the declarations `decs` of the block `all`, which come after those in
`before`, apart from their headings. -/
def bodiesMarks (around : List Surrounding) (all before decs : List Dec) : Multiset Mark :=
  total (Dec.placesList around all before decs) +
    ↑(Dec.collect Dec.bodyMarks around all before decs)

structure WritesBodies (around : List Surrounding) (all before decs : List Dec) : Prop where
  exps : ∀ {id}, .exp id ∈ bodiesMarks around all before decs → id ∈ Dec.innerIds decs
  history : ∀ {outer s base}, Checker.Inside outer s → base ≤ s.frames.frames.size →
    FramesFrom base decs s → Ready (.block all before :: around) s →
    Fresh (.block all before :: around) (Dec.innerIds decs) → Unknown (Dec.innerIds decs) s →
    Unentered decs s → decs ⊆ all →
    Ready (.block all (before ++ decs) :: around) ((CheckM.checkBodies decs).run s).2 ∧
      History s (bodiesMarks around all before decs) ((CheckM.checkBodies decs).run s).2

theorem bodiesMarks_cons (around : List Surrounding) (all before : List Dec) (d : Dec)
    (decs : List Dec) : bodiesMarks around all before (d :: decs) =
      bodiesMarks around all before [d] + bodiesMarks around all (before ++ [d]) decs := by
  rw [bodiesMarks, bodiesMarks, bodiesMarks, Dec.placesList_cons, total_append]
  simp only [Dec.collect, List.append_nil, ← Multiset.coe_add]
  abel

theorem Unentered.checkBodies {around : List Surrounding} {all before decs : List Dec} {d : Dec}
    {outer s : Checker} {base : Nat} (h : Unentered (d :: decs) s) (hinside : outer.Inside s)
    (hbase : base ≤ s.frames.frames.size) (hframes : FramesFrom base [d] s)
    (hready : Ready (.block all before :: around) s)
    (hfresh : Fresh (.block all before :: around) (Dec.innerIds [d])) (hall : d :: decs ⊆ all) :
    Unentered decs ((CheckM.checkBodies [d]).run s).2 := by
  have hwork := CheckM.checkBodies_works [d] hinside hbase hframes
  have hlater : Later [] (surroundIds (.block all before :: around)) s
      ((CheckM.checkBodies [d]).run s).2 :=
    .of_grows hwork.grows (by simp) fun id hid htouched => hfresh.new id htouched hid
  have hcurrent : ((CheckM.checkBodies [d]).run s).2.frames.current = s.frames.current :=
    hwork.inside.current.trans hinside.current.symm
  refine h.tail.congr hcurrent fun other hother hfunction => ?_
  cases other with
  | var node name typeName init => simp [Dec.isFunction] at hfunction
  | type node name definition => simp [Dec.isFunction] at hfunction
  | function node name params result body =>
    have hmem := hall (List.mem_cons_of_mem _ hother)
    obtain ⟨info, hinfo, -⟩ := hready.situated.function hmem
    have hnode : node.id ∈ surroundIds (.block all before :: around) :=
      List.mem_append_left _ (function_mem_ids hmem)
    refine ⟨info, hinfo, hlater.routine? hnode hinfo, fun f hf => ?_⟩
    obtain ⟨hne, -⟩ := h.tail.empty _ hother hfunction info hinfo
    -- A variable takes a slot of the current frame, and a function works in one of its own.
    cases d with
    | type node name definition => exact hf
    | var varNode varName typeName init =>
      have hinit : Keeps (· ∈ init.ids) (CheckM.inferExp init >>= fun initType =>
          CheckM.declaredType varNode typeName initType init.start) :=
        (CheckM.inferExp_keeps init).bind fun _ =>
          .of_onlyReports (CheckM.declaredType_onlyReports _ _ _ _)
      have hkeeps := hinit s hinside.resolved
      have hvar := declareVar_grows (hkeeps.resolved hinside.resolved) varNode varName
        ((CheckM.inferExp init >>= fun initType =>
          CheckM.declaredType varNode typeName initType init.start).run s).1
      obtain ⟨hlt, -⟩ := Array.getElem?_eq_some_iff.mp hf
      obtain ⟨f₁, hf₁, -, hkept₁⟩ := hkeeps.grows.frames hf
      obtain rfl := (hkept₁ hlt).2 hne
      obtain ⟨f₂, hf₂, -, hkept₂⟩ := hvar.1.frames hf₁
      obtain rfl := (hkept₂ (Nat.lt_of_lt_of_le hlt hkeeps.grows.size_le)).2
        (hkeeps.env.current.symm ▸ hne)
      exact hf₂
    | function node' name' params' result' body' =>
      obtain ⟨info', hinfo', -⟩ := hready.situated.function (hall List.mem_cons_self)
      have hapart := (List.pairwise_cons.mp h.apart).1 _ hother rfl rfl info' info hinfo' hinfo
      rw [CheckM.checkBodies_function]
      exact CheckM.checkFunction_frames hinside.resolved hinfo' params' result' body' hf hapart.symm

theorem CheckM.inferExp_noted (e : Exp) (s : Checker) :
    ((inferExp e).run s).2.facts.expTypes[e.node.id]? = some ((inferExp e).run s).1 := by
  cases e <;> exact NodeMap.getElem?_insert_self _ _ _

def CheckM.declaredIn (types : Scopes TypeBinding) : Option String → Ty → Ty
  | some typeName, _ => typeIn types typeName
  | none, init => if init = .nil ∨ init = .void then .error else init

theorem CheckM.declaredType_value {s : Checker} (hs : AllResolved s.types) (node : Node)
    (typeName : Option String) (init : Ty) (position : Position) :
    ((declaredType node typeName init position).run s).1 = declaredIn s.types typeName init := by
  cases typeName with
  | none =>
    unfold declaredType declaredIn
    dsimp only
    split <;> rfl
  | some typeName => exact congrArg Prod.fst (typeNamed_resolved hs typeName node.span.start)

namespace WritesBodies
variable {around : List Surrounding} {all before decs : List Dec}

theorem nil : WritesBodies around all before [] where
  exps := by simp [bodiesMarks, Dec.placesList, Dec.collect]
  history _ _ _ h _ _ _ _ := by
    rw [List.append_nil]
    exact ⟨h, .aside rfl rfl (.refl _)⟩

theorem cons {d : Dec} (hnode : d.node.id ∈ Dec.innerIds [d] ∨ d.node.id ∈ functionIds all)
    (h : WritesBodies around all before [d])
    (hrest : WritesBodies around all (before ++ [d]) decs) :
    WritesBodies around all before (d :: decs) where
  exps hid := by
    rw [Dec.innerIds_cons]
    rw [bodiesMarks_cons] at hid
    rcases Multiset.mem_add.mp hid with hid | hid
    · exact List.mem_append_left _ (h.exps hid)
    · exact List.mem_append_right _ (hrest.exps hid)
  history {outer s base} hinside hbase hframes hready hfresh hunknown hentered hall := by
    have hfresh₁ := hfresh.nextDec hnode
    rw [Dec.innerIds_cons] at hfresh hunknown
    obtain ⟨-, -, hapart⟩ := List.nodup_append.mp hfresh.nodup
    have hfirst : Fresh (.block all before :: around) (Dec.innerIds [d]) :=
      hfresh.sublist (List.sublist_append_left _ _)
    have hsingle : Unentered [d] s :=
      ⟨fun other hother =>
        hentered.empty other (List.mem_cons.mpr (.inl (List.mem_singleton.mp hother))),
        List.pairwise_singleton _ _⟩
    have hwork := CheckM.checkBodies_works [d] hinside hbase hframes.head
    have hentered₁ := hentered.checkBodies hinside hbase hframes.head hready hfirst hall
    obtain ⟨hready₁, hhistory₁⟩ := h.history hinside hbase hframes.head hready hfirst
      (hunknown.subset (List.subset_append_left _ _)) hsingle
      fun other hother => hall (List.mem_cons.mpr (.inl (List.mem_singleton.mp hother)))
    set s₁ := ((CheckM.checkBodies [d]).run s).2
    have hunknown₁ : Unknown (Dec.innerIds decs) s₁ :=
      (hunknown.subset (List.subset_append_right _ _)).grows hwork.grows
        fun id hid htouched => hapart id htouched id hid rfl
    obtain ⟨hready₂, hhistory₂⟩ := hrest.history hwork.inside (hbase.trans hwork.grows.size_le)
      (hframes.tail.grows hwork.grows) hready₁ hfresh₁ hunknown₁ hentered₁
      fun other hother => hall (List.mem_cons_of_mem _ hother)
    rw [CheckM.checkBodies_cons, List.append_cons, bodiesMarks_cons]
    exact ⟨hready₂, hhistory₁.append hhistory₂⟩

theorem type (node : Node) (name : String) (definition : TypeExp) :
    WritesBodies around all before [.type node name definition] where
  exps := by simp [bodiesMarks, Dec.placesList, Dec.collect, Dec.bodyMarks]
  history _ _ _ h _ _ _ _ := ⟨h.other fun _ => rfl, .aside rfl rfl (.refl _)⟩

theorem var {node : Node} {name : String} {typeName : Option String} {init : Exp}
    (h : Writes (.block all before :: around) [] init.ids (CheckM.inferExp init)
      (total (init.places (.block all before :: around)))) :
    WritesBodies around all before [.var node name typeName init] := by
  have hmarks : bodiesMarks around all before [.var node name typeName init] =
      total (init.places (.block all before :: around)) +
        {.slot (.block all before :: around) node.id (.declared typeName init.node.id)} := by
    simp [bodiesMarks, Dec.placesList, Dec.collect, Dec.bodyMarks]
  constructor
  · intro id hid
    rw [hmarks] at hid
    simp only [Dec.innerIds, List.append_nil]
    rcases Multiset.mem_add.mp hid with hid | hid
    · exact List.mem_cons_of_mem _ (h.exps hid)
    · cases Multiset.mem_singleton.mp hid
  · intro outer s base hinside hbase hframes hready hfresh hunknown _ _
    simp only [Dec.innerIds, List.append_nil] at hfresh hunknown
    have hsub := List.sublist_cons_self node.id init.ids
    have hnode := hfresh.new node.id List.mem_cons_self
    have hinit := h.history (hfresh.sublist hsub) hready (hunknown.subset hsub.subset)
    have hkeeps := h.keeps s hready.resolved
    have hnoted := CheckM.inferExp_noted init s
    set s₁ := ((CheckM.inferExp init).run s).2
    set initType := ((CheckM.inferExp init).run s).1
    have hresolved₁ : AllResolved s₁.types := hkeeps.resolved hready.resolved
    have hreports := CheckM.declaredType_onlyReports node typeName initType init.start s₁ hresolved₁
    have hvalue := CheckM.declaredType_value hresolved₁ node typeName initType init.start
    set s₂ := ((CheckM.declaredType node typeName initType init.start).run s₁).2
    set ty := ((CheckM.declaredType node typeName initType init.start).run s₁).1
    have hkeeps₂ : s.Keeps (· ∈ init.ids) s₂ := hkeeps.trans (.of_reports hreports)
    have hready₂ : Ready (.block all before :: around) s₂ :=
      hready.grows hkeeps₂.env hkeeps₂.grows fun id hid htouched =>
        hfresh.new id (hsub.subset htouched) hid
    obtain ⟨hframe, f, hf, -⟩ := hready₂.situated.current
    have hnew : s₂.facts.slots[node.id]? = none :=
      ((hunknown node.id List.mem_cons_self).trans
        (hkeeps₂.grows.facts (List.nodup_cons.mp hfresh.nodup).1)).slots
    have hfits : Role.Fits s₂ (.block all before :: around) f.slots.size ty
        (.declared typeName init.node.id) := by
      cases typeName with
      | none => exact ⟨initType, by rw [hreports.same]; exact hnoted, hvalue⟩
      | some typeName => exact ⟨s₂.types, hready₂.types, by rw [hreports.types]; exact hvalue⟩
    have hvar := declareVar_history hframe hf hnew hfits name
    refine ⟨hready₂.var hnode name typeName init ty, ?_⟩
    rw [hmarks]
    exact (hinit.after (.of_reports hreports)).append hvar

theorem function {node : Node} {name : String} {params : List Field} {result : Option String}
    {body : Exp} (hmem : .function node name params result body ∈ all)
    (h : Writes (.functionBody node params :: .block all before :: around) [] body.ids
      (CheckM.inferExp body)
      (total (body.places (.functionBody node params :: .block all before :: around)))) :
    WritesBodies around all before [.function node name params result body] := by
  set inner := Surrounding.functionBody node params :: .block all before :: around
  have hmarks : bodiesMarks around all before [.function node name params result body] =
      ↑(params.mapIdx fun i param => Mark.slot inner param.node.id (.param node.id i)) +
        total (body.places inner) + {.close inner} := by
    simp only [bodiesMarks, Dec.placesList, Dec.collect, Dec.bodyMarks, List.append_nil,
      ← Multiset.cons_coe, ← Multiset.singleton_add]
    abel
  constructor
  · intro id hid
    rw [hmarks] at hid
    simp only [Dec.innerIds, List.append_nil]
    rcases Multiset.mem_add.mp hid with hid | hid
    · rcases Multiset.mem_add.mp hid with hid | hid
      · simp [List.mem_mapIdx] at hid
      · exact List.mem_append_right _ (h.exps hid)
    · cases Multiset.mem_singleton.mp hid
  · intro outer s base hinside hbase hframes hready hfresh hunknown hentered _
    simp only [Dec.innerIds, List.append_nil] at hfresh hunknown
    obtain ⟨hnodup, -, hapart⟩ := List.nodup_append.mp hfresh.nodup
    obtain ⟨info, hinfo, hlength, hready₀⟩ := hready.function hmem
    obtain ⟨-, f, hf, hempty⟩ := hentered.empty _ List.mem_cons_self rfl info hinfo
    set entered := Situated.functionEntered s info.frame
    have hunknown₀ : Unknown (params.map (·.node.id)) entered :=
      hunknown.subset (List.subset_append_left _ _)
    -- The frame of the function is still empty, so its parameters take the first slots.
    obtain ⟨hready₁, hparams⟩ := declareParams_history params [] params [] info.params hready₀ hinfo
      rfl rfl hlength hf (by simp [hempty]) hnodup (hfresh.newParams hmem) hunknown₀
    simp only [List.length_nil, Nat.zero_add] at hparams
    have hwork : Checker.Works { s with frames := s.frames.enter info.frame, loopDepth := 0 }
        0 (· ∈ params.map (·.node.id)) entered
        ((CheckM.declareParams params info.params).run entered).2 :=
      CheckM.declareParams_works params info.params (Checker.inside_entered hready.resolved)
        (Nat.zero_le _) fun param hparam => List.mem_map_of_mem hparam
    set s₁ := ((CheckM.declareParams params info.params).run entered).2
    have hfresh₁ : Fresh inner ([] ++ body.ids) := hfresh.functionBody hmem
    have hunknown₁ : Unknown ([] ++ body.ids) s₁ := by
      have hids : Unknown body.ids entered := hunknown.subset (List.subset_append_right _ _)
      exact hids.grows hwork.grows fun id hid htouched => hapart id htouched id hid rfl
    have hbodyHistory := h.history hfresh₁ hready₁ hunknown₁
    have hkeeps := h.keeps s₁ hready₁.resolved
    have hready₂ : Ready inner ((CheckM.inferExp body).run s₁).2 :=
      hready₁.grows hkeeps.env hkeeps.grows fun id hid htouched => hfresh₁.new id htouched hid
    obtain ⟨hfacts, hframes', hregistry⟩ := CheckM.checkFunction_output hinfo params result body
      hready₂.resolved
    set s₂ := ((CheckM.inferExp body).run s₁).2
    have hactive : s₂.frames.active = info.frame :: s.frames.active :=
      hkeeps.env.active.trans hwork.inside.active
    obtain ⟨hframe, f₂, hf₂, -⟩ := hready₂.situated.current
    have hcurrent : s₂.frames.current = info.frame := by
      rw [Frames.current, hactive]
      rfl
    rw [hcurrent] at hframe hf₂
    rw [CheckM.checkBodies_function, hmarks]
    constructor
    · obtain ⟨henv, hgrows⟩ :
          s.SameEnv ((CheckM.checkFunction node.id params result body).run s).2 ∧
          s.Grows base 0 (· ∈ params.map (·.node.id) ++ body.ids)
            ((CheckM.checkFunction node.id params result body).run s).2 :=
        CheckM.checkFunction_keeps result hinside.resolved hbase (hframes _ List.mem_cons_self rfl)
          (fun param hparam => List.mem_append_left _ (List.mem_map_of_mem hparam))
          (h.keeps.mono fun id hid => List.mem_append_right _ hid)
      exact (hready.grows henv hgrows fun id hid htouched => hfresh.new id htouched hid).other
        fun _ => rfl
    · have hclose : History s₂ {.close inner}
          ((CheckM.checkFunction node.id params result body).run s).2 := by
        refine .step (.close hframe hf₂ hfacts ?_ hregistry)
        rw [hframes', Frames.leave, hactive]
        rfl
      have hstart : History s 0 entered := .aside rfl rfl (.refl _)
      exact ((hparams.before hstart).append hbodyHistory).append hclose

end WritesBodies

theorem Writes.block {α : Type} {around : List Surrounding} {decs : List Dec} {ids : List Nat}
    {x : CheckM α} {marks : Multiset Mark} (hdecs : WritesBodies around decs [] decs)
    (hx : Writes (.block decs decs :: around) [] ids x marks) :
    Writes around [] (Dec.idsList decs ++ ids)
      (CheckM.inScope do CheckM.declareBlock decs; CheckM.checkBodies decs; x)
      (↑(Dec.collect Dec.headingMarks around decs [] decs) + bodiesMarks around decs [] decs +
        marks) where
  keeps := CheckM.block_keeps (CheckM.checkBodies_works decs) hx.keeps
  exps {id} hid := by
    rcases Multiset.mem_add.mp hid with hid | hid
    · refine List.mem_append_left _ ?_
      rcases Multiset.mem_add.mp hid with hid | hid
      · exact absurd (List.mem_append_left _ (Multiset.mem_coe.mp hid)) (not_mem_blockMarks id).1
      · exact Dec.innerIds_subset decs (hdecs.exps hid)
    · exact List.mem_append_right _ (hx.exps hid)
  history hfresh s hready hunknown := by
    rw [List.nil_append] at hfresh hunknown
    obtain ⟨hnodup, -, hapart⟩ := List.nodup_append.mp hfresh.nodup
    obtain ⟨hfunctions, -, hapart'⟩ :=
      List.nodup_append.mp (Dec.nodup_functionIds_innerIds hnodup)
    have hnewFunctions : ∀ id ∈ functionIds decs, id ∉ surroundIds around :=
      fun id hid => hfresh.new id (List.mem_append_left _ (Dec.functionIds_subset decs hid))
    -- The types come first and write down nothing, then the headings, the bodies and the rest.
    have htypes : s.Works s.frames.frames.size (fun _ => False) s.entered
        ((CheckM.declareTypes decs >>= CheckM.resolveTypes).run s.entered).2 :=
      CheckM.declareTypes_works hready.resolved decs
    have hsituated₀ := hready.situated.declareTypes hready.resolved decs
    obtain ⟨hblock, hframes⟩ := CheckM.declareBlock_works hready.resolved decs fun id hid => hid
    have hready₁ := hready.declareBlock decs hfunctions hnewFunctions
    set s₀ := ((CheckM.declareTypes decs >>= CheckM.resolveTypes).run s.entered).2
    have hcurrent₀ : s₀.frames.current < s₀.frames.frames.size := by
      obtain ⟨-, f, hf, -⟩ := hsituated₀.current
      obtain ⟨hlt, -⟩ := Array.getElem?_eq_some_iff.mp hf
      exact hlt
    have hunknown₀ : Unknown (Dec.idsList decs ++ ids) s₀ := by
      have hentered : Unknown (Dec.idsList decs ++ ids) s.entered := hunknown
      exact hentered.grows htypes.grows fun _ _ => id
    have hheadings := declareHeadings_history decs hsituated₀ htypes.inside hfunctions
      hnewFunctions (hunknown₀.subset fun id hid =>
        List.mem_append_left _ (Dec.functionIds_subset decs hid)) decs []
    have hentered := declareHeadings_unentered decs htypes.inside hcurrent₀ hfunctions
    set s₁ := ((CheckM.declareBlock decs).run s.entered).2
    have hunknown₁ : Unknown (Dec.innerIds decs) s₁ := by
      have hinnerIds : Unknown (Dec.innerIds decs) s.entered :=
        hunknown.subset fun id hid => List.mem_append_left _ (Dec.innerIds_subset decs hid)
      exact hinnerIds.grows hblock.grows fun id hid htouched => hapart' id htouched id hid rfl
    have hwork := CheckM.checkBodies_works decs hblock.inside hblock.grows.size_le hframes
    obtain ⟨hready₂, hbodies⟩ := hdecs.history hblock.inside hblock.grows.size_le hframes hready₁
      hfresh.decs hunknown₁ hentered fun _ h => h
    set s₂ := ((CheckM.checkBodies decs).run s₁).2
    have hunknown₂ : Unknown ([] ++ ids) s₂ := by
      have hentered : Unknown ids s.entered := hunknown.subset (List.subset_append_right _ _)
      refine (hentered.grows hblock.grows fun id hid htouched => ?_).grows hwork.grows
        fun id hid htouched => ?_
      · exact hapart id (Dec.functionIds_subset decs htouched) id hid rfl
      · exact hapart id (Dec.innerIds_subset decs htouched) id hid rfl
    have hafter := hx.history hfresh.afterDecs hready₂ hunknown₂
    have hstart : History s 0 s₀ := by
      have helsewhere : s₀.facts = s.facts ∧ s₀.frames.frames = s.frames.frames := by
        obtain ⟨scope, hsettled⟩ :=
          CheckM.declareTypes_resolveTypes hready.resolved (s := s.entered) rfl decs
        have helsewhere := hsettled.resolving.elsewhere
        exact ⟨helsewhere.facts, congrArg Frames.frames helsewhere.frames⟩
      exact .aside helsewhere.1 helsewhere.2 htypes.grows.registry
    have hend : History (x.run s₂).2 0
        ((CheckM.inScope do CheckM.declareBlock decs; CheckM.checkBodies decs; x).run s).2 :=
      .aside rfl rfl (.refl _)
    exact ((((hheadings.before hstart).append hbodies).append hafter).after hend)

theorem blockMarks_add (around : List Surrounding) (decs : List Dec) :
    (↑(Dec.collect Dec.headingMarks around decs [] decs) + bodiesMarks around decs [] decs :
      Multiset Mark) = ↑(blockMarks around decs) + total (Dec.placesList around decs [] decs) := by
  rw [blockMarks, bodiesMarks, ← Multiset.coe_add]
  abel

theorem Writes.typeOfCall {around : List Surrounding} (node : Node) (function : String)
    (args : List (Ty × Position)) :
    Writes around [node.id] [] (CheckM.typeOfCall node function args) 0 where
  keeps := .typeOfCall function args List.mem_cons_self
  exps := by simp
  history _ _ hready _ := CheckM.typeOfCall_history hready.resolved node function args

namespace CheckM

mutual

theorem inferExp_writes : ∀ (e : Exp) (around : List Surrounding),
    Writes around [] e.ids (inferExp e) (total (e.places around))
  | .nil _, _ => .exp rfl rfl (List.nil_sublist _) rfl (.of_onlyReports (.pure _))
  | .int _ _, _ => .exp rfl rfl (List.nil_sublist _) rfl (.of_onlyReports (.pure _))
  | .str _ _, _ => .exp rfl rfl (List.nil_sublist _) rfl (.of_onlyReports (.pure _))
  | .var _ target, around =>
    .exp rfl rfl (List.nil_sublist _) rfl (inferVar_writes target around)
  | .call node function args, around =>
    .exp rfl (by simp [Exp.ids]) (List.Sublist.refl _) (by simp [Exp.places, Place.marks, Exp.node])
      ((inferExps_writes args around).bind fun types => .typeOfCall node function types)
  | .binary _ op left right, around =>
    .exp rfl rfl (List.nil_sublist _) (by simp [Exp.places, Place.marks, Exp.node])
      ((inferExp_writes left around).bind fun leftType =>
        (inferExp_writes right around).thenReports fun rightType =>
          typeOfBinary_onlyReports op leftType rightType right.start)
  | .record node typeName fields, around =>
    .exp rfl rfl (List.nil_sublist _) rfl
      (.afterReports (typeNamed_onlyReports typeName _) fun ty =>
        (inferGiven_writes fields around).thenReports fun given =>
          typeOfRecord_onlyReports ty typeName given node.span.start)
  | .seq _ exps, around =>
    .exp rfl rfl (List.nil_sublist _) rfl
      ((inferExps_writes exps around).thenReports fun _ => .pure _)
  | .assign _ target value, around =>
    .exp rfl rfl (List.nil_sublist _) (by simp [Exp.places, Place.marks, Exp.node])
      ((inferVar_writes target around).bind fun _ =>
        (inferExp_writes value around).thenReports fun _ =>
          (checkAssignable_onlyReports target).bind fun _ => .require_then _ _ _ (.pure _))
  | .ifThen _ test body, around =>
    .exp rfl rfl (List.nil_sublist _) (by simp [Exp.places, Place.marks, Exp.node])
      ((inferExp_writes test around).bind fun _ =>
        .afterReports (OnlyReports.require _ _ _).discard fun _ =>
        (inferExp_writes body around).thenReports fun _ => .require_then _ _ _ (.pure _))
  | .ifThenElse _ test yes no, around =>
    .exp rfl rfl (List.nil_sublist _) (by simp [Exp.places, Place.marks, Exp.node])
      ((inferExp_writes test around).bind fun _ =>
        .afterReports (OnlyReports.require _ _ _).discard fun _ =>
        (inferExp_writes yes around).bind fun yesType =>
        (inferExp_writes no around).thenReports fun noType =>
          typeOfBranches_onlyReports yesType noType no.start)
  | .whileDo _ test body, around =>
    .exp rfl rfl (List.nil_sublist _) (by simp [Exp.places, Place.marks, Exp.node])
      ((inferExp_writes test around).bind fun _ =>
        .afterReports (OnlyReports.require _ _ _).discard fun _ =>
        (inferExp_writes body (.whileBody :: around)).whileBody.inLoop.thenReports fun _ =>
          .require_then _ _ _ (.pure _))
  | .forTo node name lo hi body, around =>
    .exp rfl rfl (List.Sublist.refl _)
      (by
        simp only [Exp.places, Place.marks, Exp.node, total_cons, total_append]
        rw [← Multiset.cons_coe, ← Multiset.singleton_add, Multiset.coe_singleton]
        abel)
      ((inferExp_writes lo around).bind fun _ =>
        .afterReports (OnlyReports.require _ _ _).discard fun _ =>
        (inferExp_writes hi around).bind fun _ =>
        .afterReports (OnlyReports.require _ _ _).discard fun _ =>
        (inferExp_writes body (.forBody node name :: around)).inLoop.withLoopVar.thenReports
          fun _ => .require_then _ _ _ (.pure _))
  | .breakLoop _, _ =>
    .exp rfl rfl (List.nil_sublist _) rfl (.of_onlyReports (typeOfBreak_onlyReports _))
  | .letIn _ decs body, around =>
    .exp rfl rfl (List.nil_sublist _)
      (by
        simp only [Exp.places, Place.marks, Exp.node, total_cons, total_append, blockMarks_add]
        rw [← Multiset.cons_coe, ← Multiset.singleton_add]
        abel)
      (.block (checkBodies_writes decs (fun _ h => h)) (inferExp_writes body _))
  | .array _ typeName size init, around =>
    .exp rfl rfl (List.nil_sublist _) (by simp [Exp.places, Place.marks, Exp.node])
      (.afterReports (typeNamed_onlyReports typeName _) fun ty =>
        (inferExp_writes size around).bind fun _ =>
        .afterReports (OnlyReports.require _ _ _).discard fun _ =>
        (inferExp_writes init around).thenReports fun initType =>
          typeOfArray_onlyReports ty typeName initType _ _)

theorem inferVar_writes : ∀ (v : Var) (around : List Surrounding),
    Writes around [] v.ids (inferVar v) (total (v.places around))
  | .simple node name, _ => .simple node name
  | .field _ base name, around =>
    .var rfl rfl rfl ((inferVar_writes base around).thenReports fun baseType =>
      typeOfField_onlyReports baseType name _)
  | .subscript _ base index, around =>
    .var rfl rfl (by simp [Var.places, Place.marks, Var.node])
      ((inferVar_writes base around).bind fun baseType =>
        (inferExp_writes index around).thenReports fun _ =>
          .require_then _ _ _ (typeOfSubscript_onlyReports baseType _))

theorem inferExps_writes : ∀ (es : List Exp) (around : List Surrounding),
    Writes around [] (Exp.idsList es) (inferExps es) (total (Exp.placesList around es))
  | [], _ => .of_onlyReports (.pure _)
  | e :: es, around => by
    rw [Exp.placesList, total_append]
    exact (inferExp_writes e around).bind fun _ =>
      (inferExps_writes es around).thenReports fun _ => .pure _

theorem inferGiven_writes : ∀ (fields : List FieldExp) (around : List Surrounding),
    Writes around [] (FieldExp.idsList fields) (inferGiven fields)
      (total (FieldExp.placesList around fields))
  | [], _ => .of_onlyReports (.pure _)
  | .mk _ _ value :: fields, around => by
    rw [FieldExp.placesList, total_append]
    exact (inferExp_writes value around).bind fun _ =>
      (inferGiven_writes fields around).thenReports fun _ => .pure _

theorem checkBodies_writes : ∀ (decs : List Dec) {around : List Surrounding}
    {all before : List Dec}, decs ⊆ all → WritesBodies around all before decs
  | [], _, _, _, _ => .nil
  | .var _ _ _ init :: decs, _, _, _, hall =>
    .cons (.inl List.mem_cons_self) (.var (inferExp_writes init _))
      (checkBodies_writes decs fun _ h => hall (List.mem_cons_of_mem _ h))
  | .type node name definition :: decs, _, _, _, hall =>
    .cons (.inl List.mem_cons_self) (.type node name definition)
      (checkBodies_writes decs fun _ h => hall (List.mem_cons_of_mem _ h))
  | .function _ _ _ _ body :: decs, _, _, _, hall =>
    .cons (.inr (function_mem_functionIds (hall List.mem_cons_self)))
      (.function (hall List.mem_cons_self) (inferExp_writes body _))
      (checkBodies_writes decs fun _ h => hall (List.mem_cons_of_mem _ h))

end

end CheckM

theorem check_history {e : Exp} (h : e.ids.Nodup) :
    History .initial (total (e.places []) + {.close []}) (check e) := by
  have hfresh : Fresh [] ([] ++ e.ids) := ⟨h, by simp [surroundIds]⟩
  have hunknown : Unknown ([] ++ e.ids) .initial := fun id _ => .refl _ _
  have hwrites := (CheckM.inferExp_writes e []).history hfresh ready_initial hunknown
  have hkeeps := CheckM.inferExp_keeps e .initial allResolved_initial
  have hready : Ready [] ((CheckM.inferExp e).run .initial).2 :=
    ready_initial.grows hkeeps.env hkeeps.grows (by simp [surroundIds])
  obtain ⟨-, f, hf, -⟩ := hready.situated.current
  have hcurrent : ((CheckM.inferExp e).run .initial).2.frames.current = Frames.mainFrame := by
    rw [Frames.current, hkeeps.env.active]
    rfl
  rw [hcurrent] at hf
  have hclose : Step ((CheckM.inferExp e).run .initial).2 {.close []} (check e) :=
    .close rfl hf rfl rfl rfl
  exact hwrites.append (.step hclose)

theorem check_holds {e : Exp} (h : e.ids.Nodup) {mark : Mark} (hmark : mark ∈ total (e.places [])) :
    mark.Holds (check e) :=
  (check_history h).holds_once.1 mark (Multiset.mem_add.mpr (.inl hmark))

theorem check_entries {e : Exp} (h : e.ids.Nodup) :
    ((total (e.places [])).filterMap Mark.entry?).Nodup := by
  have hall := (check_history h).holds_once.2
  rw [Multiset.filterMap_add, Multiset.nodup_add] at hall
  exact hall.1

end TigerLang
