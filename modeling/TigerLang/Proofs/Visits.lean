import TigerLang.Proofs.Checks

/-! The checker comes to every part of a program, in a state that fits what the part stands in, and
what it finds out there stays as it is. For an expression it is the state that it is listed with. -/

namespace TigerLang

namespace Part

def ids : Part → List Nat
  | .exp e => e.ids
  | .var v => v.ids

def check : Part → CheckM Ty
  | .exp e => CheckM.inferExp e
  | .var v => CheckM.inferVar v

theorem check_keeps : ∀ part : Part, Keeps (· ∈ part.ids) part.check
  | .exp e => CheckM.inferExp_keeps e
  | .var v => CheckM.inferVar_keeps v

end Part

structure Fresh (around : List Surrounding) (ids : List Nat) : Prop where
  nodup : ids.Nodup
  new : ∀ id ∈ ids, id ∉ surroundIds around

theorem Fresh.sublist {around : List Surrounding} {ids ids' : List Nat} (h : Fresh around ids)
    (hsub : ids'.Sublist ids) : Fresh around ids' :=
  ⟨h.nodup.sublist hsub, fun id hid => h.new id (hsub.subset hid)⟩

theorem Dec.innerIds_cons (d : Dec) (decs : List Dec) :
    Dec.innerIds (d :: decs) = Dec.innerIds [d] ++ Dec.innerIds decs := by
  cases d <;> simp [innerIds]

theorem surroundIds_block_append (around : List Surrounding) (all before : List Dec) (d : Dec)
    (id : Nat) : id ∈ surroundIds (.block all (before ++ [d]) :: around) ↔
      id ∈ surroundIds (.block all before :: around) ∨ id = d.node.id := by
  simp only [surroundIds, List.flatMap_cons, Surrounding.ids, List.map_append, List.map_cons,
    List.map_nil, List.mem_append, List.mem_cons, List.not_mem_nil, or_false]
  tauto

section fresh
variable {around : List Surrounding} {ids : List Nat}

theorem Fresh.forBody {node : Node} (h : Fresh around (node.id :: ids)) (name : String) :
    Fresh (.forBody node name :: around) ids := by
  obtain ⟨hnode, hnodup⟩ := List.nodup_cons.mp h.nodup
  refine ⟨hnodup, fun id hid hmem => ?_⟩
  rcases List.mem_cons.mp hmem with rfl | hmem
  · exact hnode hid
  · exact h.new id (List.mem_cons_of_mem _ hid) hmem

theorem Fresh.decs {decs : List Dec} (h : Fresh around (Dec.idsList decs ++ ids)) :
    Fresh (.block decs [] :: around) (Dec.innerIds decs) := by
  obtain ⟨hnodup, -, -⟩ := List.nodup_append.mp h.nodup
  obtain ⟨-, hinner, hapart⟩ := List.nodup_append.mp (Dec.nodup_functionIds_innerIds hnodup)
  refine ⟨hinner, fun id hid hmem => ?_⟩
  rcases List.mem_append.mp hmem with hmem | hmem
  · exact hapart id (by simpa [Surrounding.ids] using hmem) id hid rfl
  · exact h.new id (List.mem_append_left _ (Dec.innerIds_subset decs hid)) hmem

theorem Fresh.afterDecs {decs : List Dec} (h : Fresh around (Dec.idsList decs ++ ids)) :
    Fresh (.block decs decs :: around) ids := by
  obtain ⟨-, hids, hapart⟩ := List.nodup_append.mp h.nodup
  refine ⟨hids, fun id hid hmem => ?_⟩
  rcases List.mem_append.mp hmem with hmem | hmem
  · rcases List.mem_append.mp hmem with hmem | hmem
    · exact hapart id (Dec.map_node_subset decs hmem) id hid rfl
    · exact hapart id (Dec.functionIds_subset decs hmem) id hid rfl
  · exact h.new id (List.mem_append_right _ hid) hmem

variable {all before decs : List Dec} {d : Dec}

theorem Fresh.nextDec (h : Fresh (.block all before :: around) (Dec.innerIds (d :: decs)))
    (hnode : d.node.id ∈ Dec.innerIds [d] ∨ d.node.id ∈ functionIds all) :
    Fresh (.block all (before ++ [d]) :: around) (Dec.innerIds decs) := by
  rw [Dec.innerIds_cons] at h
  obtain ⟨-, hnodup, hapart⟩ := List.nodup_append.mp h.nodup
  refine ⟨hnodup, fun id hid hmem => ?_⟩
  have hnew := h.new id (List.mem_append_right _ hid)
  rcases (surroundIds_block_append around all before d id).mp hmem with hmem | rfl
  · exact hnew hmem
  · rcases hnode with hnode | hnode
    · exact hapart _ hnode _ hid rfl
    · exact hnew (by simp [surroundIds, Surrounding.ids, hnode])

variable {node : Node} {name : String} {params : List Field} {result : Option String} {body : Exp}
  (h : Fresh (.block all before :: around) (params.map (·.node.id) ++ ids))
  (hmem : .function node name params result body ∈ all)
include h hmem

theorem Fresh.newParams : ∀ param ∈ params,
    param.node.id ∉ surroundIds (.functionBody node [] :: .block all before :: around) := by
  intro param hparam hid
  have hnew := h.new param.node.id (List.mem_append_left _ (List.mem_map_of_mem hparam))
  rcases List.mem_cons.mp hid with heq | hid
  · exact hnew (heq ▸ List.mem_append_left _ (function_mem_ids hmem))
  · exact hnew hid

theorem Fresh.functionBody :
    Fresh (.functionBody node params :: .block all before :: around) ids := by
  obtain ⟨-, hids, hapart⟩ := List.nodup_append.mp h.nodup
  refine ⟨hids, fun id hid hmem' => ?_⟩
  have hnew := h.new id (List.mem_append_right _ hid)
  rcases List.mem_append.mp hmem' with hmem' | hmem'
  · rcases List.mem_cons.mp hmem' with rfl | hmem'
    · exact hnew (List.mem_append_left _ (function_mem_ids hmem))
    · exact hapart id hmem' id hid rfl
  · exact hnew hmem'

end fresh

def Visited (log : List (Exp × Checker)) (place : Place) (s s' : Checker) : Prop :=
  ∃ t, (∀ e, place.part = .exp e → (e, t) ∈ log) ∧ Situated place.around t ∧ AllResolved t.types ∧
    Fresh place.around place.part.ids ∧ (∀ id ∈ place.part.ids, s.facts.AgreeAt t.facts id) ∧
    Later place.part.ids (surroundIds place.around) (place.part.check.run t).2 s'

namespace Visited
variable {log log' : List (Exp × Checker)} {place : Place} {s s' r : Checker}

theorem here (hlog : ∀ e, place.part = .exp e → (e, s) ∈ log) (h : Situated place.around s)
    (hs : AllResolved s.types) (hfresh : Fresh place.around place.part.ids) :
    Visited log place s (place.part.check.run s).2 :=
  ⟨s, hlog, h, hs, hfresh, fun _ _ => .refl _ _, .of_same rfl rfl List.prefix_rfl⟩

theorem listed (h : Visited log place s s') (hlog : log ⊆ log') : Visited log' place s s' := by
  obtain ⟨t, hmem, ht⟩ := h
  exact ⟨t, fun e he => hlog (hmem e he), ht⟩

theorem before (h : Visited log place s s')
    (hr : ∀ id ∈ place.part.ids, r.facts.AgreeAt s.facts id) : Visited log place r s' := by
  obtain ⟨t, hmem, ht, hresolved, hfresh, hagree, hlater⟩ := h
  exact ⟨t, hmem, ht, hresolved, hfresh, fun id hid => (hr id hid).trans (hagree id hid), hlater⟩

theorem after (h : Visited log place s s')
    (hr : Later place.part.ids (surroundIds place.around) s' r) : Visited log place s r := by
  obtain ⟨t, hmem, ht, hresolved, hfresh, hagree, hlater⟩ := h
  exact ⟨t, hmem, ht, hresolved, hfresh, hagree, hlater.trans hr⟩

end Visited

namespace Later
variable {noted bound : List Nat} {s : Checker} {node : Node}

theorem noteExp (hnode : node.id ∉ noted) (find : CheckM Ty) :
    Later noted bound (find.run s).2 ((CheckM.noteExp node find).run s).2 where
  frames {_ f} hf := ⟨f, hf, .refl f⟩
  functions := List.prefix_rfl
  facts id hid := by
    have hne : id ≠ node.id := fun heq => hnode (heq ▸ hid)
    exact ⟨NodeMap.getElem?_insert_of_ne _ hne, rfl, rfl, rfl, rfl, rfl⟩
  slots _ _ := rfl
  routineOf _ _ := rfl
  diagnostics := List.prefix_rfl

theorem noteVar (hnode : node.id ∉ noted) (find : CheckM Ty) :
    Later noted bound (find.run s).2 ((CheckM.noteVar node find).run s).2 where
  frames {_ f} hf := ⟨f, hf, .refl f⟩
  functions := List.prefix_rfl
  facts id hid := by
    have hne : id ≠ node.id := fun heq => hnode (heq ▸ hid)
    exact ⟨rfl, NodeMap.getElem?_insert_of_ne _ hne, rfl, rfl, rfl, rfl⟩
  slots _ _ := rfl
  routineOf _ _ := rfl
  diagnostics := List.prefix_rfl

theorem of_reports {s' : Checker} (h : s.Reports s') : Later noted bound s s' :=
  .of_same (by rw [h.same]) (by rw [h.same]) h.diagnostics

end Later

/-- The action checks the parts in `places`, which stand in `around` and have their numbers from
`ids`. It may also note something about those in `own`. The states for the expressions among the
parts are those in `log`. -/
structure Visits {α : Type} (around : List Surrounding) (own ids : List Nat) (x : CheckM α)
    (places : List Place) (log : Checker → List (Exp × Checker)) : Prop where
  keeps : Keeps (· ∈ own ++ ids) x
  within : ∀ place ∈ places, place.part.ids ⊆ ids ∧
    surroundIds place.around ⊆ surroundIds around ++ (own ++ ids)
  visited : Fresh around (own ++ ids) → ∀ {s}, Situated around s → AllResolved s.types →
    ∀ place ∈ places, Visited (log s) place s (x.run s).2

namespace Visits
variable {α β : Type} {around : List Surrounding} {own ids ids' : List Nat} {x : CheckM α}
  {f : α → CheckM β} {places places' : List Place} {log : Checker → List (Exp × Checker)}
  {logs : α → Checker → List (Exp × Checker)}

theorem of_keeps (h : Keeps (· ∈ own) x) : Visits around own [] x [] fun _ => [] where
  keeps := by simpa using h
  within := by simp
  visited := by simp

theorem of_onlyReports (h : OnlyReports x) : Visits around [] [] x [] fun _ => [] :=
  of_keeps (.of_onlyReports h)

theorem bind (hx : Visits around [] ids x places log)
    (hf : ∀ a, Visits around own ids' (f a) places' (logs a)) :
    Visits around own (ids ++ ids') (x >>= f) (places ++ places')
      fun s => log s ++ logs (x.run s).1 (x.run s).2 where
  keeps := by
    refine (hx.keeps.mono fun id hid => ?_).bind fun a => (hf a).keeps.mono fun id hid => ?_
    · exact List.mem_append_right _ (List.mem_append_left _ hid)
    · rcases List.mem_append.mp hid with hid | hid
      · exact List.mem_append_left _ hid
      · exact List.mem_append_right _ (List.mem_append_right _ hid)
  within place hplace := by
    rcases List.mem_append.mp hplace with hplace | hplace
    · obtain ⟨hids, haround⟩ := hx.within place hplace
      exact ⟨fun id hid => List.mem_append_left _ (hids hid), fun id hid => by
        have := haround hid
        simp only [List.mem_append, List.nil_append] at this ⊢
        tauto⟩
    · obtain ⟨hids, haround⟩ := (hf (x.run .initial).1).within place hplace
      exact ⟨fun id hid => List.mem_append_right _ (hids hid), fun id hid => by
        have := haround hid
        simp only [List.mem_append] at this ⊢
        tauto⟩
  visited hfresh s h hs place hplace := by
    have hkeeps := hx.keeps s hs
    obtain ⟨hown, hrest, hapart⟩ := List.nodup_append.mp hfresh.nodup
    obtain ⟨-, -, hapart'⟩ := List.nodup_append.mp hrest
    have hresolved : AllResolved (x.run s).2.types := hkeeps.resolved hs
    rcases List.mem_append.mp hplace with hplace | hplace
    · have hfirst : Fresh around ids := hfresh.sublist (by simp)
      refine ((hx.visited hfirst h hs place hplace).listed (List.subset_append_left _ _)).after ?_
      obtain ⟨hids, haround⟩ := hx.within place hplace
      refine .of_grows ((hf _).keeps _ hresolved).grows (fun id hid htouched => ?_)
        fun id hid htouched => ?_
      · have hid := hids hid
        grind
      · have hid := haround hid
        have hnew := hfresh.new id
        grind
    · have hsecond : Fresh around (own ++ ids') := hfresh.sublist (by simp)
      have hsituated : Situated around (x.run s).2 := by
        refine h.keeps hkeeps fun id hid htouched => hfresh.new id ?_ hid
        simpa using .inr (.inl htouched)
      have hvisited := (hf (x.run s).1).visited hsecond hsituated hresolved place hplace
      refine (hvisited.listed (List.subset_append_right _ _)).before fun id hid => ?_
      obtain ⟨hids, -⟩ := (hf (x.run s).1).within place hplace
      refine hkeeps.grows.facts fun htouched => ?_
      exact hapart' id (by simpa using htouched) id (hids hid) rfl

theorem afterReports (hx : OnlyReports x) (hf : ∀ a, Visits around own ids (f a) places (logs a)) :
    Visits around own ids (x >>= f) places fun s => logs (x.run s).1 (x.run s).2 :=
  (of_onlyReports hx).bind hf

theorem bind_keeps (hx : Visits around [] ids x places log) (hf : ∀ a, Keeps (· ∈ own) (f a)) :
    Visits around own ids (x >>= f) places log := by
  simpa using hx.bind fun a => of_keeps (hf a)

theorem andThen (hx : Visits around own ids x places log) (hf : ∀ a, OnlyReports (f a)) :
    Visits around own ids (x >>= f) places log where
  keeps := hx.keeps.bind fun a => .of_onlyReports (hf a)
  within := hx.within
  visited hfresh s h hs place hplace :=
    (hx.visited hfresh h hs place hplace).after
      (.of_reports (hf _ _ ((hx.keeps s hs).resolved hs)))

theorem part (part : Part) {node : Node} {find : CheckM Ty} (hids : part.ids = node.id :: ids)
    (hnote : ∀ {s noted bound}, node.id ∉ noted →
      Later noted bound (find.run s).2 (part.check.run s).2)
    (hown : own.Sublist [node.id]) (h : Visits around own ids find places log)
    {log' : Checker → List (Exp × Checker)} (hlog : ∀ s, log s ⊆ log' s)
    (hhere : ∀ s e, part = .exp e → (e, s) ∈ log' s) :
    Visits around [] part.ids part.check (⟨around, part⟩ :: places) log' where
  keeps := part.check_keeps
  within place hplace := by
    have hsub : own ++ ids ⊆ part.ids := hids ▸ (hown.append (List.Sublist.refl ids)).subset
    rcases List.mem_cons.mp hplace with rfl | hplace
    · exact ⟨List.Subset.refl _, List.subset_append_left _ _⟩
    · obtain ⟨hpart, haround⟩ := h.within place hplace
      refine ⟨fun id hid => hsub (List.mem_append_right _ (hpart hid)), fun id hid => ?_⟩
      rcases List.mem_append.mp (haround hid) with hid | hid
      · exact List.mem_append_left _ hid
      · exact List.mem_append_right _ (hsub hid)
  visited hfresh s hsituated hs place hplace := by
    rcases List.mem_cons.mp hplace with rfl | hplace
    · exact .here (hhere s) hsituated hs hfresh
    · rw [List.nil_append, hids] at hfresh
      have hinner : Fresh around (own ++ ids) :=
        hfresh.sublist (hown.append (List.Sublist.refl ids))
      have hnode : node.id ∉ place.part.ids := fun hmem =>
        (List.nodup_cons.mp hfresh.nodup).1 ((h.within place hplace).1 hmem)
      have hvisited := h.visited hinner hsituated hs place hplace
      exact (hvisited.listed (hlog s)).after (hnote hnode)

theorem exp {e : Exp} {node : Node} {find : CheckM Ty}
    (hcheck : CheckM.inferExp e = CheckM.noteExp node find) (hids : e.ids = node.id :: ids)
    (hown : own.Sublist [node.id]) (h : Visits around own ids find places log)
    (hlog : ∀ s, e.checks s = (e, s) :: log s) :
    Visits around [] e.ids (CheckM.inferExp e) (⟨around, .exp e⟩ :: places) e.checks := by
  refine part (.exp e) hids (fun hnode => ?_) hown h (fun s => ?_) fun s e' he' => ?_
  · rw [Part.check, hcheck]
    exact .noteExp hnode find
  · rw [hlog s]
    exact List.subset_cons_self _ _
  · obtain rfl : e = e' := Part.exp.inj he'
    rw [hlog s]
    exact List.mem_cons_self

theorem var {v : Var} {node : Node} {find : CheckM Ty}
    (hcheck : CheckM.inferVar v = CheckM.noteVar node find) (hids : v.ids = node.id :: ids)
    (hown : own.Sublist [node.id]) (h : Visits around own ids find places log)
    (hlog : ∀ s, v.checks s = log s) :
    Visits around [] v.ids (CheckM.inferVar v) (⟨around, .var v⟩ :: places) v.checks := by
  refine part (.var v) hids (fun hnode => ?_) hown h (fun s => ?_) fun s e he => ?_
  · rw [Part.check, hcheck]
    exact .noteVar hnode find
  · rw [hlog s]
    exact List.Subset.refl _
  · cases he

theorem whileBody (h : Visits (.whileBody :: around) own ids x places log) :
    Visits around own ids x places log where
  keeps := h.keeps
  within := h.within
  visited hfresh _ hsituated hs := h.visited ⟨hfresh.nodup, hfresh.new⟩ hsituated.whileBody hs

theorem inLoop (h : Visits around own ids x places log) :
    Visits around own ids (CheckM.inLoop x) places
      fun s => log { s with loopDepth := s.loopDepth + 1 } where
  keeps := h.keeps.inLoop
  within := h.within
  visited hfresh s hsituated hs place hplace := by
    set looping : Checker := { s with loopDepth := s.loopDepth + 1 }
    have hlater : Later [] (surroundIds around) s looping := .of_same rfl rfl List.prefix_rfl
    have hlooping : Situated around looping :=
      ⟨hsituated.stack.later hlater (List.Subset.refl _), hsituated.vars, hsituated.functions⟩
    have hvisited := h.visited hfresh hlooping hs place hplace
    exact (hvisited.before fun _ _ => .refl _ _).after (.of_same rfl rfl List.prefix_rfl)

theorem withLoopVar {node : Node} {name : String}
    (h : Visits (.forBody node name :: around) [] ids x places log) :
    Visits around [node.id] ids (CheckM.withLoopVar node name x) places
      fun s => log (Situated.loopEntered s node name) where
  keeps := .withLoopVar name (h.keeps.mono fun _ => List.mem_cons_of_mem _) List.mem_cons_self
  within place hplace := by
    obtain ⟨hpart, haround⟩ := h.within place hplace
    refine ⟨hpart, fun id hid => ?_⟩
    have hid := haround hid
    simp only [surroundIds, List.flatMap_cons, Surrounding.ids, List.nil_append, List.mem_append,
      List.mem_cons, List.not_mem_nil, or_false] at hid ⊢
    tauto
  visited hfresh s hsituated hs place hplace := by
    obtain ⟨hnode, -⟩ := List.nodup_cons.mp hfresh.nodup
    have hbound := hsituated.forBody hs (hfresh.new node.id List.mem_cons_self) name
    obtain ⟨hgrows, htypes⟩ := Situated.keeps_loopEntered hs node name
    have hvisited := h.visited (hfresh.forBody name) hbound (htypes ▸ hs) place hplace
    refine (hvisited.before fun id hid => hgrows.facts fun heq => ?_).after
      (.of_same rfl rfl List.prefix_rfl)
    exact hnode (heq ▸ (h.within place hplace).1 hid)

end Visits

theorem Later.inScope {α : Type} {noted bound : List Nat} (x : CheckM α) (s : Checker) :
    Later noted bound (x.run s.entered).2 ((CheckM.inScope x).run s).2 := by
  rw [CheckM.inScope_run]
  exact .of_same rfl rfl List.prefix_rfl

theorem Later.inFunction {noted bound : List Nat} (frame : Nat) (x : CheckM Unit) (s : Checker) :
    Later noted bound (x.run { s with frames := s.frames.enter frame, loopDepth := 0 }).2
      ((CheckM.inFunction frame x).run s).2 := by
  set s₁ := (x.run { s with frames := s.frames.enter frame, loopDepth := 0 }).2
  set s₂ : Checker := { s₁ with frames := s₁.frames.leave, loopDepth := s.loopDepth }
  have hleave : Later noted bound s₁ s₂ := by
    cases hactive : s₁.frames.active with
    | nil =>
      have hsame : s₁.frames.leave = s₁.frames := by simp only [Frames.leave, hactive]
      exact .of_same (congrArg Frames.frames hsame) rfl List.prefix_rfl
    | cons last active =>
      have hsame : s₁.frames.leave = Frames.finalize { s₁.frames with active } last := by
        simp only [Frames.leave, hactive]
      have hgrows : s₁.Grows 0 0 (fun _ => False) { s₁ with
          frames := Frames.finalize { s₁.frames with active } last, loopDepth := s.loopDepth } :=
        CheckM.grows_finalize (Nat.zero_le _) _ _
      rw [← hsame] at hgrows
      exact .of_grows hgrows (by simp) (by simp)
  exact hleave.trans (.of_reports (CheckM.inFunction_reports frame x s).1)

theorem Later.checkFunction {noted bound : List Nat} {id : Nat} {params : List Field} {s s' : Checker}
    {info : Routine} {body : Exp} (hinfo : s.facts.routine? id = some info)
    (hs' : ((CheckM.declareParams params info.params >>= fun _ => CheckM.inferExp body).run
      (Situated.functionEntered s info.frame)).2 = s') (hresolved : AllResolved s'.types)
    (result : Option String) :
    Later noted bound s' ((CheckM.checkFunction id params result body).run s).2 := by
  rw [CheckM.checkFunction, CheckM.run_get_bind, hinfo]
  refine Later.trans ?_ ((Later.inScope _ _).trans (Later.inFunction _ _ _))
  subst hs'
  exact .of_reports ((OnlyReports.require _ _ _).discard _ hresolved)

structure VisitsBodies (around : List Surrounding) (all before decs : List Dec) : Prop where
  within : ∀ place ∈ Dec.placesList around all before decs, place.part.ids ⊆ Dec.innerIds decs ∧
    surroundIds place.around ⊆ surroundIds (.block all before :: around) ++ Dec.innerIds decs
  visited : ∀ {outer s base}, Checker.Inside outer s → base ≤ s.frames.frames.size →
    FramesFrom base decs s → Situated (.block all before :: around) s →
    Fresh (.block all before :: around) (Dec.innerIds decs) →
    Situated (.block all (before ++ decs) :: around) ((CheckM.checkBodies decs).run s).2 ∧
      ∀ place ∈ Dec.placesList around all before decs,
        Visited (Dec.checksList decs s) place s ((CheckM.checkBodies decs).run s).2

theorem Dec.placesList_cons (around : List Surrounding) (all before : List Dec) (d : Dec)
    (decs : List Dec) : Dec.placesList around all before (d :: decs) =
      Dec.placesList around all before [d] ++ Dec.placesList around all (before ++ [d]) decs := by
  cases d <;> simp [placesList]

theorem Dec.checksList_cons (d : Dec) (decs : List Dec) (s : Checker) :
    Dec.checksList (d :: decs) s = Dec.checksList [d] s ++ Dec.checksList decs (s.afterDec d) := by
  cases d <;> simp [checksList]

theorem CheckM.checkBodies_cons (d : Dec) (decs : List Dec) (s : Checker) :
    (checkBodies (d :: decs)).run s = (checkBodies decs).run ((checkBodies [d]).run s).2 := by
  cases d with
  | var node name typeName init => rfl
  | type node name definition => rfl
  | function node name params result body =>
    rw [checkBodies_function, checkBodies_function]
    rfl

namespace VisitsBodies
variable {around : List Surrounding} {all before decs : List Dec}

theorem nil : VisitsBodies around all before [] where
  within := by simp [Dec.placesList]
  visited _ _ _ h _ := by
    rw [List.append_nil]
    exact ⟨h, by simp [Dec.placesList]⟩

theorem cons {d : Dec} (hnode : d.node.id ∈ Dec.innerIds [d] ∨ d.node.id ∈ functionIds all)
    (h : VisitsBodies around all before [d]) (hrest : VisitsBodies around all (before ++ [d]) decs) :
    VisitsBodies around all before (d :: decs) where
  within place hplace := by
    rw [Dec.innerIds_cons]
    rw [Dec.placesList_cons] at hplace
    rcases List.mem_append.mp hplace with hplace | hplace
    · obtain ⟨hpart, haround⟩ := h.within place hplace
      refine ⟨fun id hid => List.mem_append_left _ (hpart hid), fun id hid => ?_⟩
      rw [← List.append_assoc]
      exact List.mem_append_left _ (haround hid)
    · obtain ⟨hpart, haround⟩ := hrest.within place hplace
      refine ⟨fun id hid => List.mem_append_right _ (hpart hid), fun id hid => ?_⟩
      rcases List.mem_append.mp (haround hid) with hid | hid
      · rcases (surroundIds_block_append around all before d id).mp hid with hid | rfl
        · exact List.mem_append_left _ hid
        · rcases hnode with hnode | hnode
          · exact List.mem_append_right _ (List.mem_append_left _ hnode)
          · exact List.mem_append_left _ (by simp [surroundIds, Surrounding.ids, hnode])
      · exact List.mem_append_right _ (List.mem_append_right _ hid)
  visited {outer s base} hinside hbase hframes hsituated hfresh := by
    have hfresh₁ := hfresh.nextDec hnode
    rw [Dec.innerIds_cons] at hfresh
    obtain ⟨-, -, hapart⟩ := List.nodup_append.mp hfresh.nodup
    have hwork := CheckM.checkBodies_works [d] hinside hbase hframes.head
    obtain ⟨hsituated₁, hvisited⟩ :=
      h.visited hinside hbase hframes.head hsituated (hfresh.sublist (List.sublist_append_left _ _))
    set s₁ := ((CheckM.checkBodies [d]).run s).2
    have hframes₁ := hframes.tail.grows hwork.grows
    have hbase₁ := hbase.trans hwork.grows.size_le
    obtain ⟨hsituated₂, hvisited₂⟩ :=
      hrest.visited hwork.inside hbase₁ hframes₁ hsituated₁ hfresh₁
    rw [CheckM.checkBodies_cons, Dec.checksList_cons, List.append_cons]
    refine ⟨hsituated₂, fun place hplace => ?_⟩
    rw [Dec.placesList_cons] at hplace
    have hrun := (CheckM.checkBodies_works decs hwork.inside hbase₁ hframes₁).grows
    rcases List.mem_append.mp hplace with hplace | hplace
    · obtain ⟨hpart, haround⟩ := h.within place hplace
      have hlisted := (hvisited place hplace).listed
        (List.subset_append_left _ (Dec.checksList decs (s.afterDec d)))
      refine hlisted.after (.of_grows hrun (fun id hid htouched => ?_) fun id hid htouched => ?_)
      · exact hapart id (hpart hid) id htouched rfl
      · rcases List.mem_append.mp (haround hid) with hid | hid
        · exact hfresh.new id (List.mem_append_right _ htouched) hid
        · exact hapart id hid id htouched rfl
    · have hlisted := (hvisited₂ place hplace).listed
        (List.subset_append_right (Dec.checksList [d] s) _)
      refine hlisted.before fun id hid => hwork.grows.facts fun htouched => ?_
      exact hapart id htouched id ((hrest.within place hplace).1 hid) rfl

theorem type (node : Node) (name : String) (definition : TypeExp) :
    VisitsBodies around all before [.type node name definition] where
  within := by simp [Dec.placesList]
  visited _ _ _ h _ := ⟨h.other fun _ => rfl, by simp [Dec.placesList]⟩

theorem var {node : Node} {name : String} {typeName : Option String} {init : Exp}
    (h : Visits (.block all before :: around) [] init.ids (CheckM.inferExp init)
      (init.places (.block all before :: around)) init.checks) :
    VisitsBodies around all before [.var node name typeName init] where
  within place hplace := by
    simp only [Dec.placesList, List.append_nil] at hplace
    obtain ⟨hpart, haround⟩ := h.within place hplace
    simp only [Dec.innerIds, List.append_nil]
    refine ⟨fun id hid => List.mem_cons_of_mem _ (hpart hid), fun id hid => ?_⟩
    rcases List.mem_append.mp (haround hid) with hid | hid
    · exact List.mem_append_left _ hid
    · exact List.mem_append_right _ (List.mem_cons_of_mem _ hid)
  visited {outer s base} hinside hbase hframes hsituated hfresh := by
    simp only [Dec.innerIds, List.append_nil] at hfresh
    obtain ⟨hnode, -⟩ := List.nodup_cons.mp hfresh.nodup
    have hinit := h.andThen fun ty => CheckM.declaredType_onlyReports node typeName ty init.start
    have hfresh' := hfresh.sublist (List.sublist_cons_self _ _)
    have hkeeps := hinit.keeps s hinside.resolved
    have hvisited := hinit.visited hfresh' hsituated hinside.resolved
    set r := (CheckM.inferExp init >>= fun ty =>
      CheckM.declaredType node typeName ty init.start).run s
    have hresolved : AllResolved r.2.types := hkeeps.resolved hinside.resolved
    have hsituated' : Situated (.block all before :: around) r.2 :=
      hsituated.keeps hkeeps fun id hid htouched => hfresh'.new id htouched hid
    have hnew := hfresh.new node.id List.mem_cons_self
    obtain ⟨hgrows, -⟩ := declareVar_grows hresolved node name r.1
    refine ⟨hsituated'.var hresolved hnew name typeName init r.1, fun place hplace => ?_⟩
    simp only [Dec.placesList, List.append_nil] at hplace
    obtain ⟨hpart, haround⟩ := h.within place hplace
    have hlisted := (hvisited place hplace).listed (List.subset_append_left _ [])
    refine hlisted.after (.of_grows hgrows (fun id hid heq => ?_) fun id hid heq => ?_)
    · exact hnode (heq ▸ hpart hid)
    · rcases List.mem_append.mp (haround hid) with hid | hid
      · exact hnew (heq ▸ hid)
      · exact hnode (heq ▸ hid)

theorem function {node : Node} {name : String} {params : List Field} {result : Option String}
    {body : Exp} (hmem : .function node name params result body ∈ all)
    (h : Visits (.functionBody node params :: .block all before :: around) [] body.ids
      (CheckM.inferExp body)
      (body.places (.functionBody node params :: .block all before :: around)) body.checks) :
    VisitsBodies around all before [.function node name params result body] where
  within place hplace := by
    simp only [Dec.placesList, List.append_nil] at hplace
    obtain ⟨hpart, haround⟩ := h.within place hplace
    have hnode : node.id ∈ surroundIds (.block all before :: around) :=
      List.mem_append_left _ (function_mem_ids hmem)
    simp only [Dec.innerIds, List.append_nil]
    refine ⟨fun id hid => List.mem_append_right _ (hpart hid), fun id hid => ?_⟩
    rcases List.mem_append.mp (haround hid) with hid | hid
    · rcases List.mem_append.mp hid with hid | hid
      · rcases List.mem_cons.mp hid with rfl | hid
        · exact List.mem_append_left _ hnode
        · exact List.mem_append_right _ (List.mem_append_left _ hid)
      · exact List.mem_append_left _ hid
    · exact List.mem_append_right _ (List.mem_append_right _ hid)
  visited {outer s base} hinside hbase hframes hsituated hfresh := by
    simp only [Dec.innerIds, List.append_nil] at hfresh
    obtain ⟨hnodup, -, hapart⟩ := List.nodup_append.mp hfresh.nodup
    obtain ⟨info, hinfo, hlength, hentered⟩ := hsituated.function hmem
    have hbodyEntered := Checker.inside_entered
      (s := { s with frames := s.frames.enter info.frame, loopDepth := 0 }) hinside.resolved
    have hparams := CheckM.declareParams_works params info.params hbodyEntered hbase
      fun param hparam => (List.mem_map_of_mem hparam : param.node.id ∈ params.map (·.node.id))
    have hdeclared : Situated (.functionBody node params :: .block all before :: around)
        ((CheckM.declareParams params info.params).run (Situated.functionEntered s info.frame)).2 :=
      hentered.params params info.params hbodyEntered.resolved hlength hnodup (hfresh.newParams hmem)
    have hbodyFresh := hfresh.functionBody hmem
    have hresolved := hparams.inside.resolved
    have hkeeps := h.keeps _ hresolved
    rw [CheckM.checkBodies_function]
    constructor
    · have hkept : s.SameEnv ((CheckM.checkFunction node.id params result body).run s).2 ∧
          s.Grows base 0 (· ∈ params.map (·.node.id) ++ body.ids)
            ((CheckM.checkFunction node.id params result body).run s).2 :=
        CheckM.checkFunction_keeps result hinside.resolved hbase
          (hframes _ List.mem_cons_self rfl)
          (fun param hparam => List.mem_append_left _ (List.mem_map_of_mem hparam))
          (h.keeps.mono fun id hid => List.mem_append_right _ hid)
      have hlater : Later [] (surroundIds (.block all before :: around)) s
          ((CheckM.checkFunction node.id params result body).run s).2 :=
        .of_grows hkept.2 (by simp) fun id hid htouched => hfresh.new id htouched hid
      exact (hsituated.later hkept.1 hlater (List.Subset.refl _)).other fun _ => rfl
    · intro place hplace
      simp only [Dec.placesList, List.append_nil] at hplace
      obtain ⟨hpart, -⟩ := h.within place hplace
      have hlisted : body.checks (s.inBody info params) ⊆
          Dec.checksList [.function node name params result body] s := by
        rw [Dec.checksList, hinfo]
        exact List.subset_append_left _ _
      have hvisited := (h.visited hbodyFresh hdeclared hresolved place hplace).listed hlisted
      refine (hvisited.before fun id hid => ?_).after
        (.checkFunction hinfo rfl (hkeeps.resolved hresolved) result)
      exact hparams.grows.facts fun htouched => hapart id htouched id (hpart hid) rfl

end VisitsBodies

theorem Visits.block {α : Type} {around : List Surrounding} {decs : List Dec} {ids : List Nat}
    {x : CheckM α} {places : List Place} {log : Checker → List (Exp × Checker)}
    (hdecs : VisitsBodies around decs [] decs)
    (hx : Visits (.block decs decs :: around) [] ids x places log) :
    Visits around [] (Dec.idsList decs ++ ids)
      (CheckM.inScope do CheckM.declareBlock decs; CheckM.checkBodies decs; x)
      (Dec.placesList around decs [] decs ++ places)
      fun s => Dec.checksList decs (s.inBlock decs) ++
        log ((CheckM.checkBodies decs).run (s.inBlock decs)).2 where
  keeps := CheckM.block_keeps (CheckM.checkBodies_works decs) hx.keeps
  within place hplace := by
    have hinner := Dec.innerIds_subset decs
    have hfunctions := Dec.functionIds_subset decs
    have hnodes := Dec.map_node_subset decs
    rcases List.mem_append.mp hplace with hplace | hplace
    · obtain ⟨hpart, haround⟩ := hdecs.within place hplace
      refine ⟨fun id hid => List.mem_append_left _ (hinner (hpart hid)), fun id hid => ?_⟩
      have hid := haround hid
      simp only [surroundIds, List.flatMap_cons, Surrounding.ids, List.map_nil, List.nil_append,
        List.mem_append] at hid ⊢
      grind
    · obtain ⟨hpart, haround⟩ := hx.within place hplace
      refine ⟨fun id hid => List.mem_append_right _ (hpart hid), fun id hid => ?_⟩
      have hid := haround hid
      simp only [surroundIds, List.flatMap_cons, Surrounding.ids, List.nil_append,
        List.mem_append] at hid ⊢
      grind
  visited hfresh s hsituated hs place hplace := by
    rw [List.nil_append] at hfresh
    obtain ⟨hnodup, -, hapart⟩ := List.nodup_append.mp hfresh.nodup
    obtain ⟨hfunctions, -, hapart'⟩ :=
      List.nodup_append.mp (Dec.nodup_functionIds_innerIds hnodup)
    obtain ⟨hblock, hframes⟩ := CheckM.declareBlock_works hs decs fun id hid => hid
    have hdeclared := hsituated.declareBlock hs decs hfunctions
      fun id hid => hfresh.new id (List.mem_append_left _ (Dec.functionIds_subset decs hid))
    change Situated _ (s.inBlock decs) at hdeclared
    set s₁ := s.inBlock decs
    have hwork := CheckM.checkBodies_works decs hblock.inside hblock.grows.size_le hframes
    obtain ⟨hbodies, hvisited⟩ := hdecs.visited hblock.inside hblock.grows.size_le hframes hdeclared
      hfresh.decs
    set s₂ := ((CheckM.checkBodies decs).run s₁).2
    have hxFresh := hfresh.afterDecs
    have hleave : Later place.part.ids (surroundIds place.around) (x.run s₂).2
        ((CheckM.inScope do CheckM.declareBlock decs; CheckM.checkBodies decs; x).run s).2 :=
      Later.inScope (do CheckM.declareBlock decs; CheckM.checkBodies decs; x) s
    refine Visited.after ?_ hleave
    -- Nothing that is checked later has a number of an earlier part, nor one that it stands in.
    rcases List.mem_append.mp hplace with hplace | hplace
    · obtain ⟨hpart, haround⟩ := hdecs.within place hplace
      have hbefore : ∀ id ∈ place.part.ids, s.facts.AgreeAt s₁.facts id := fun id hid =>
        hblock.grows.facts fun htouched => hapart' id htouched id (hpart hid) rfl
      have hlisted := (hvisited place hplace).listed (List.subset_append_left _ (log s₂))
      refine (hlisted.before hbefore).after
        (.of_grows (hx.keeps _ hwork.inside.resolved).grows (fun id hid htouched => ?_)
          fun id hid htouched => ?_)
      · exact hapart id (Dec.innerIds_subset decs (hpart hid)) id htouched rfl
      · rcases List.mem_append.mp (haround hid) with hid | hid
        · refine hxFresh.new id htouched (List.mem_append.mpr ?_)
          exact (List.mem_append.mp hid).imp_left (List.mem_append_right _)
        · exact hapart id (Dec.innerIds_subset decs hid) id htouched rfl
    · have hlisted := (hx.visited hxFresh hbodies hwork.inside.resolved place hplace).listed
        (List.subset_append_right (Dec.checksList decs s₁) _)
      refine hlisted.before fun id hid => ?_
      have hid := (hx.within place hplace).1 hid
      refine (hblock.grows.facts fun htouched => ?_).trans (hwork.grows.facts fun htouched => ?_)
      · exact hapart id (Dec.functionIds_subset decs htouched) id hid rfl
      · exact hapart id (Dec.innerIds_subset decs htouched) id hid rfl

namespace CheckM

mutual

theorem inferExp_visits : ∀ (e : Exp) (around : List Surrounding),
    Visits around [] e.ids (inferExp e) (e.places around) e.checks
  | .nil _, _ => .exp rfl rfl (List.nil_sublist _) (.of_onlyReports (.pure _)) fun _ => rfl
  | .int _ _, _ => .exp rfl rfl (List.nil_sublist _) (.of_onlyReports (.pure _)) fun _ => rfl
  | .str _ _, _ => .exp rfl rfl (List.nil_sublist _) (.of_onlyReports (.pure _)) fun _ => rfl
  | .var _ target, around =>
    .exp rfl rfl (List.nil_sublist _) (inferVar_visits target around) fun _ => rfl
  | .call _ function args, around =>
    .exp rfl rfl (List.Sublist.refl _) ((inferExps_visits args around).bind_keeps fun types =>
      .typeOfCall function types List.mem_cons_self) fun _ => rfl
  | .binary _ op left right, around =>
    .exp rfl rfl (List.nil_sublist _) ((inferExp_visits left around).bind fun leftType =>
      (inferExp_visits right around).andThen fun rightType =>
        typeOfBinary_onlyReports op leftType rightType right.start) fun _ => rfl
  | .record node typeName fields, around =>
    .exp rfl rfl (List.nil_sublist _) (.afterReports (typeNamed_onlyReports typeName _) fun ty =>
      (inferGiven_visits fields around).andThen fun given =>
        typeOfRecord_onlyReports ty typeName given node.span.start) fun _ => rfl
  | .seq _ exps, around =>
    .exp rfl rfl (List.nil_sublist _) ((inferExps_visits exps around).andThen fun _ => .pure _)
      fun _ => rfl
  | .assign _ target value, around =>
    .exp rfl rfl (List.nil_sublist _) ((inferVar_visits target around).bind fun _ =>
      (inferExp_visits value around).andThen fun _ =>
        (checkAssignable_onlyReports target).bind fun _ => .require_then _ _ _ (.pure _))
      fun _ => rfl
  | .ifThen _ test body, around =>
    .exp rfl rfl (List.nil_sublist _) ((inferExp_visits test around).bind fun _ =>
      .afterReports (OnlyReports.require _ _ _).discard fun _ =>
      (inferExp_visits body around).andThen fun _ => .require_then _ _ _ (.pure _)) fun _ => rfl
  | .ifThenElse _ test yes no, around =>
    .exp rfl rfl (List.nil_sublist _) ((inferExp_visits test around).bind fun _ =>
      .afterReports (OnlyReports.require _ _ _).discard fun _ =>
      (inferExp_visits yes around).bind fun yesType =>
      (inferExp_visits no around).andThen fun noType =>
        typeOfBranches_onlyReports yesType noType no.start) fun _ => rfl
  | .whileDo _ test body, around =>
    .exp rfl rfl (List.nil_sublist _) ((inferExp_visits test around).bind fun _ =>
      .afterReports (OnlyReports.require _ _ _).discard fun _ =>
      (inferExp_visits body (.whileBody :: around)).whileBody.inLoop.andThen fun _ =>
        .require_then _ _ _ (.pure _)) fun _ => rfl
  | .forTo node name lo hi body, around =>
    .exp rfl rfl (List.Sublist.refl _) ((inferExp_visits lo around).bind fun _ =>
      .afterReports (OnlyReports.require _ _ _).discard fun _ =>
      (inferExp_visits hi around).bind fun _ =>
      .afterReports (OnlyReports.require _ _ _).discard fun _ =>
      (inferExp_visits body (.forBody node name :: around)).inLoop.withLoopVar.andThen fun _ =>
        .require_then _ _ _ (.pure _)) fun _ => rfl
  | .breakLoop _, _ =>
    .exp rfl rfl (List.nil_sublist _) (.of_onlyReports (typeOfBreak_onlyReports _)) fun _ => rfl
  | .letIn _ decs body, _ =>
    .exp rfl rfl (List.nil_sublist _) (.block (checkBodies_visits decs (fun _ h => h))
      (inferExp_visits body _)) fun _ => rfl
  | .array _ typeName size init, around =>
    .exp rfl rfl (List.nil_sublist _) (.afterReports (typeNamed_onlyReports typeName _) fun ty =>
      (inferExp_visits size around).bind fun _ =>
      .afterReports (OnlyReports.require _ _ _).discard fun _ =>
      (inferExp_visits init around).andThen fun initType =>
        typeOfArray_onlyReports ty typeName initType _ _) fun _ => rfl

theorem inferVar_visits : ∀ (v : Var) (around : List Surrounding),
    Visits around [] v.ids (inferVar v) (v.places around) v.checks
  | .simple _ name, _ =>
    .var rfl rfl (List.Sublist.refl _) (.of_keeps (.typeOfSimple name List.mem_cons_self))
      fun _ => rfl
  | .field _ base name, around =>
    .var rfl rfl (List.nil_sublist _) ((inferVar_visits base around).andThen fun baseType =>
      typeOfField_onlyReports baseType name _) fun _ => rfl
  | .subscript _ base index, around =>
    .var rfl rfl (List.nil_sublist _) ((inferVar_visits base around).bind fun baseType =>
      (inferExp_visits index around).andThen fun _ =>
        .require_then _ _ _ (typeOfSubscript_onlyReports baseType _)) fun _ => rfl

theorem inferExps_visits : ∀ (es : List Exp) (around : List Surrounding),
    Visits around [] (Exp.idsList es) (inferExps es) (Exp.placesList around es) (Exp.checksList es)
  | [], _ => .of_onlyReports (.pure _)
  | e :: es, around => (inferExp_visits e around).bind fun _ =>
    (inferExps_visits es around).andThen fun _ => .pure _

theorem inferGiven_visits : ∀ (fields : List FieldExp) (around : List Surrounding),
    Visits around [] (FieldExp.idsList fields) (inferGiven fields)
      (FieldExp.placesList around fields) (FieldExp.checksList fields)
  | [], _ => .of_onlyReports (.pure _)
  | .mk _ _ value :: fields, around => (inferExp_visits value around).bind fun _ =>
    (inferGiven_visits fields around).andThen fun _ => .pure _

theorem checkBodies_visits : ∀ (decs : List Dec) {around : List Surrounding}
    {all before : List Dec}, decs ⊆ all → VisitsBodies around all before decs
  | [], _, _, _, _ => .nil
  | .var _ _ _ init :: decs, _, _, _, hall =>
    .cons (.inl List.mem_cons_self) (.var (inferExp_visits init _))
      (checkBodies_visits decs fun _ h => hall (List.mem_cons_of_mem _ h))
  | .type node name definition :: decs, _, _, _, hall =>
    .cons (.inl List.mem_cons_self) (.type node name definition)
      (checkBodies_visits decs fun _ h => hall (List.mem_cons_of_mem _ h))
  | .function _ _ _ _ body :: decs, _, _, _, hall =>
    .cons (.inr (function_mem_functionIds (hall List.mem_cons_self)))
      (.function (hall List.mem_cons_self) (inferExp_visits body _))
      (checkBodies_visits decs fun _ h => hall (List.mem_cons_of_mem _ h))

end

end CheckM

theorem check_visits {e : Exp} (h : e.ids.Nodup) {place : Place} (hplace : place ∈ e.places []) :
    Visited (e.checks .initial) place .initial (check e) := by
  have hfresh : Fresh [] e.ids := ⟨h, by simp [surroundIds]⟩
  have hvisited := (CheckM.inferExp_visits e []).visited hfresh Situated.initial
    allResolved_initial place hplace
  have hclose : ((CheckM.inferExp e).run .initial).2.Grows 0 0 (fun _ => False) { (
      (CheckM.inferExp e).run .initial).2 with
        frames := ((CheckM.inferExp e).run .initial).2.frames.closeMain } :=
    CheckM.grows_finalize (Nat.zero_le _) _ _
  refine hvisited.after ((Later.of_grows hclose (by simp) (by simp)).trans ?_)
  exact .of_same rfl rfl List.prefix_rfl

end TigerLang
