import TigerLang.Proofs.LexicalScope
import TigerLang.Proofs.Writes

/-! The slots of the frames and the variables of a program correspond one to one. -/

namespace TigerLang

theorem notesAccounted_initial : NotesAccounted 0 .initial where
  exps := by simp [Checker.initial, Facts.empty]
  vars := by simp [Checker.initial, Facts.empty]
  uses := by simp [Checker.initial, Facts.empty]

theorem slotsAccounted_initial : SlotsAccounted 0 .initial where
  marked := by simp [Checker.initial, Facts.empty]
  valid := by simp [Checker.initial, Facts.empty]
  injective := by simp [Checker.initial, Facts.empty]
  surjective {n k f} hf hk := by
    -- The only frame is the main one, and it is empty.
    obtain ⟨hlt, rfl⟩ := Array.getElem?_eq_some_iff.mp hf
    obtain rfl : n = 0 := Nat.lt_one_iff.mp hlt
    exact absurd hk (Nat.not_lt_zero k)

def Exp.slotIds (e : Exp) : List Nat :=
  ((e.places []).flatMap Place.marks).filterMap fun mark => mark.entry?.bind Sum.getLeft?

section check
variable {e : Exp} {id : Nat}

theorem mem_slotIds : id ∈ e.slotIds ↔ ∃ around role, e.Binds around id role := by
  simp only [← slot_mem_total, total, Multiset.mem_coe, Exp.slotIds, List.mem_filterMap]
  constructor
  · rintro ⟨mark, hmem, hid⟩
    cases mark <;> simp only [Mark.entry?, Option.bind_some, Option.bind_none, Sum.getLeft?_inl,
      Sum.getLeft?_inr, Option.some.injEq, reduceCtorEq] at hid
    subst hid
    exact ⟨_, _, hmem⟩
  · rintro ⟨around, role, hmem⟩
    exact ⟨_, hmem, rfl⟩

theorem slotIds_nodup (hnodup : e.ids.Nodup) : e.slotIds.Nodup := by
  have hentries := check_entries hnodup
  rw [total, Multiset.filterMap_coe, Multiset.coe_nodup] at hentries
  rw [Exp.slotIds, ← List.filterMap_filterMap]
  refine hentries.filterMap fun a b id ha hb => ?_
  rw [Sum.getLeft?_eq_some_iff.mp ha, Sum.getLeft?_eq_some_iff.mp hb]

theorem check_notes (hnodup : e.ids.Nodup) :
    NotesAccounted (total (e.places []) + {.close []}) (check e) := by
  have hall := (check_history hnodup).keeps NotesAccounted.step notesAccounted_initial
  rwa [zero_add] at hall

theorem check_slots (hnodup : e.ids.Nodup) :
    SlotsAccounted (total (e.places []) + {.close []}) (check e) := by
  have hall := (check_history hnodup).keeps SlotsAccounted.step slotsAccounted_initial
  rwa [zero_add] at hall

theorem slot_iff_mem_slotIds (hnodup : e.ids.Nodup) :
    (∃ slot, (check e).facts.slots[id]? = some slot) ↔ id ∈ e.slotIds := by
  rw [mem_slotIds]
  constructor
  · rintro ⟨slot, hslot⟩
    obtain ⟨around, role, hmem⟩ := (check_slots hnodup).marked hslot
    rcases Multiset.mem_add.mp hmem with hmem | hmem
    · exact ⟨around, role, slot_mem_total.mp hmem⟩
    · cases Multiset.mem_singleton.mp hmem
  · rintro ⟨around, role, hbinds⟩
    obtain ⟨slot, -, -, hslot, -⟩ := check_holds hnodup (slot_mem_total.mpr hbinds)
    exact ⟨slot, hslot⟩

end check

def Checker.Reserves (s : Checker) (id : Nat) (ty : Ty) : Prop :=
  ∃ slot, s.facts.slots[id]? = some slot ∧ s.Stores slot ty

section reserves
variable {s s' : Checker} {id : Nat} {ty : Ty}

theorem Checker.Reserves.grows {base current : Nat} {touched : Nat → Prop} (h : s.Reserves id ty)
    (hgrows : s.Grows base current touched s') (hid : ¬ touched id) : s'.Reserves id ty := by
  obtain ⟨slot, hslot, hstores⟩ := h
  exact ⟨slot, (hgrows.facts hid).slots.trans hslot, hstores.grows hgrows⟩

theorem Checker.Reserves.later {noted bound : List Nat} (h : s.Reserves id ty)
    (hlater : Later noted bound s s') (hid : id ∈ noted) : s'.Reserves id ty := by
  obtain ⟨slot, hslot, f, hf, hty⟩ := h
  obtain ⟨f', hf', hgrows⟩ := hlater.frames hf
  exact ⟨slot, (hlater.facts id hid).slots.trans hslot, f', hf', hgrows.slot hty⟩

end reserves

section annotated
variable {node : Node} {name typeName : String} {init : Exp}

theorem CheckM.checkVar_reserves {s : Checker} {f : Frame} (hs : AllResolved s.types)
    (hf : s.frames.frames[s.frames.current]? = some f) :
    ((checkBodies [.var node name (some typeName) init]).run s).2.Reserves node.id
      (typeIn s.types typeName) := by
  have hinit := inferExp_keeps init s hs
  set s₁ := ((inferExp init).run s).2
  set initType := ((inferExp init).run s).1
  have hresolved₁ : AllResolved s₁.types := hinit.resolved hs
  have hreports := declaredType_onlyReports node (some typeName) initType init.start s₁ hresolved₁
  have hvalue := declaredType_value hresolved₁ node (some typeName) initType init.start
  set s₂ := ((declaredType node (some typeName) initType init.start).run s₁).2
  set ty := ((declaredType node (some typeName) initType init.start).run s₁).1
  have hkeeps : s.Keeps (· ∈ init.ids) s₂ := hinit.trans (.of_reports hreports)
  obtain ⟨f₂, hf₂, -⟩ := hkeeps.grows.frames hf
  rw [← hkeeps.env.current] at hf₂
  obtain ⟨hfacts, hframes, -⟩ := declareVar_output node name ty s₂
  obtain ⟨f', hf', hstored⟩ := reserve_stores hf₂ ty
  have hty : ty = typeIn s.types typeName := by
    rw [hvalue, hinit.env.types]
    rfl
  rw [← hty]
  change ((declareVar node name ty).run s₂).2.Reserves node.id ty
  refine ⟨((reserve ty).run s₂).1, ?_, f', ?_, hstored⟩
  · rw [hfacts]
    exact NodeMap.getElem?_insert_self _ _ _
  · rw [hframes]
    exact hf'

-- What is declared later gets slots of its own, and the types are those at the start of the block.
theorem CheckM.checkBodies_reserves (decs : List Dec) {outer s : Checker} {base : Nat} {f : Frame}
    (hinside : outer.Inside s) (hbase : base ≤ s.frames.frames.size)
    (hframes : FramesFrom base decs s) (hnodup : (Dec.innerIds decs).Nodup)
    (hf : s.frames.frames[s.frames.current]? = some f)
    (hmem : .var node name (some typeName) init ∈ decs) :
    ((checkBodies decs).run s).2.Reserves node.id (typeIn s.types typeName) := by
  induction decs generalizing s f with
  | nil => exact absurd hmem List.not_mem_nil
  | cons d decs ih =>
    rw [Dec.innerIds_cons] at hnodup
    obtain ⟨-, hrest, hapart⟩ := List.nodup_append.mp hnodup
    have hwork := checkBodies_works [d] hinside hbase hframes.head
    have htypes := checkBodies_types [d] hinside.resolved
    have hframes₁ := hframes.tail.grows hwork.grows
    have hbase₁ := hbase.trans hwork.grows.size_le
    rw [checkBodies_cons]
    rcases List.mem_cons.mp hmem with rfl | hmem
    · have hafter := (checkBodies_works decs hwork.inside hbase₁ hframes₁).grows
      have hnew : node.id ∉ Dec.innerIds decs := fun hid =>
        hapart node.id List.mem_cons_self node.id hid rfl
      exact (checkVar_reserves hinside.resolved hf).grows hafter hnew
    · obtain ⟨f₁, hf₁, -⟩ := hwork.grows.frames hf
      rw [hinside.current, ← hwork.inside.current] at hf₁
      rw [← htypes]
      exact ih hwork.inside hbase₁ hframes₁ hrest hf₁ hmem

theorem Visited.reserves {log : List (Exp × Checker)} {around : List Surrounding} {block : Node}
    {decs : List Dec} {body : Exp} {s s' : Checker}
    (h : Visited log ⟨around, .exp (.letIn block decs body)⟩ s s')
    (hmem : .var node name (some typeName) init ∈ decs) :
    ∃ t, (.letIn block decs body, t) ∈ log ∧
      s'.Reserves node.id (typeIn (t.inBlock decs).types typeName) := by
  obtain ⟨t, hlog, ht, hresolved, hfresh, -, hlater⟩ := h
  obtain ⟨hblock, hnodup⟩ := List.nodup_cons.mp hfresh.nodup
  obtain ⟨hdecs, -, hapart⟩ := List.nodup_append.mp hnodup
  obtain ⟨-, hinner, -⟩ := List.nodup_append.mp (Dec.nodup_functionIds_innerIds hdecs)
  have hid : node.id ∈ Dec.idsList decs := Dec.map_node_subset decs (List.mem_map_of_mem hmem)
  obtain ⟨hwork, hframes⟩ := CheckM.declareBlock_works hresolved decs fun id hid => hid
  change t.Works _ _ t.entered (t.inBlock decs) at hwork
  obtain ⟨-, f, hf, -⟩ := ht.current
  obtain ⟨f₁, hf₁, -⟩ := hwork.grows.frames hf
  rw [← hwork.inside.current] at hf₁
  have hreserved := CheckM.checkBodies_reserves decs hwork.inside hwork.grows.size_le hframes hinner
    hf₁ hmem
  have hbodies := CheckM.checkBodies_works decs hwork.inside hwork.grows.size_le hframes
  set s₁ := ((CheckM.checkBodies decs).run (t.inBlock decs)).2
  have hbody := (CheckM.inferExp_keeps body s₁ hbodies.inside.resolved).grows
  have hnew : node.id ∉ body.ids := fun hmem => hapart node.id hid node.id hmem rfl
  have hleave : Later [node.id] [] ((CheckM.inferExp body).run s₁).2
      ((CheckM.inferExp (.letIn block decs body)).run t).2 := by
    let inside : CheckM Ty := do
      CheckM.declareBlock decs
      CheckM.checkBodies decs
      CheckM.inferExp body
    have hscope : Later [node.id] [] (inside.run t.entered).2 ((CheckM.inScope inside).run t).2 :=
      .inScope inside t
    have hne : block.id ∉ [node.id] := fun hmem =>
      hblock (List.mem_append_left _ (List.mem_singleton.mp hmem ▸ hid))
    exact hscope.trans (.noteExp hne (CheckM.inScope inside))
  have hnoted : [node.id] ⊆ (Part.exp (.letIn block decs body)).ids :=
    List.cons_subset.mpr ⟨List.mem_cons_of_mem _ (List.mem_append_left _ hid), List.nil_subset _⟩
  have hend : Later [node.id] [] ((CheckM.inferExp (.letIn block decs body)).run t).2 s' :=
    hlater.mono hnoted (List.nil_subset _)
  refine ⟨t, hlog _ rfl, ?_⟩
  exact (hreserved.grows hbody hnew).later (hleave.trans hend) List.mem_cons_self

end annotated

structure SlotsMatch (e : Exp) (s : Checker) : Prop where
  nodup : e.slotIds.Nodup
  bound : ∀ id : Nat, (∃ slot, s.facts.slots[id]? = some slot) ↔ id ∈ e.slotIds
  valid : ∀ {id : Nat} {slot}, s.facts.slots[id]? = some slot → ∃ f,
    s.frames.frames[slot.frame]? = some f ∧ slot.offset < f.slots.size
  filled : ∀ {n k : Nat} {f}, s.frames.frames[n]? = some f → k < f.slots.size → ∃! id : Nat,
    ∃ slot, s.facts.slots[id]? = some slot ∧ slot.frame = n ∧ slot.offset = k
  placed : ∀ {around id role}, e.Binds around id role → ∃ slot f ty,
    s.facts.slots[id]? = some slot ∧ frameOf? s.facts around = some slot.frame ∧
    s.frames.frames[slot.frame]? = some f ∧ f.level = slot.level ∧
    f.slots[slot.offset]? = some ty ∧ role.Fits s around slot.offset ty
  -- The block is checked in one state only, and entering it from there settles what the name means.
  annotated : ∀ {around block decs body node name typeName init},
    ⟨around, .exp (.letIn block decs body)⟩ ∈ e.places [] →
    .var node name (some typeName) init ∈ decs →
    ∃ t, (∀ t', (.letIn block decs body, t') ∈ e.checks .initial ↔ t' = t) ∧
      s.Reserves node.id (typeIn (t.inBlock decs).types typeName)
  used : ∀ {around node name use}, ⟨around, .var (.simple node name)⟩ ∈ e.places [] →
    s.facts.varUses[node.id]? = some use → ∃ ty, s.facts.varTypes[node.id]? = some ty ∧
      s.Stores use.slot ty

/-- Each variable has a slot of its own in the frame of the nearest function. -/
theorem parse_frameSlots {file : String} {tokens : List Token} {e : Exp}
    (hparse : (parse file tokens).1 = .ok e) : SlotsMatch e (check e) := by
  have hnodup := parse_nodup hparse
  have hslots := check_slots hnodup
  exact {
    nodup := slotIds_nodup hnodup
    bound := fun _ => slot_iff_mem_slotIds hnodup
    valid := hslots.valid
    filled := fun {n k f} hf hk => by
      obtain ⟨id, slot, hslot, hframe, hoffset⟩ := hslots.surjective hf hk
      refine ⟨id, ⟨slot, hslot, hframe, hoffset⟩, ?_⟩
      rintro other ⟨slot', hslot', hframe', hoffset'⟩
      exact hslots.injective hslot' hslot (hframe'.trans hframe.symm) (hoffset'.trans hoffset.symm)
    placed := fun hbinds => check_holds hnodup (slot_mem_total.mpr hbinds)
    annotated := fun hplace hmem => by
      obtain ⟨t, ht, hreserves⟩ := (check_visits hnodup hplace).reserves hmem
      refine ⟨t, fun t' => ⟨fun ht' => Exp.checks_unique hnodup ht' ht, ?_⟩, hreserves⟩
      rintro rfl
      exact ht
    used := fun _ huse => (check_notes hnodup).uses huse }

theorem parse_frameSlots_shadowed :
    (parse "shadow.tig" (spelled "shadow.tig" shadowWords)).1 = .ok shadowed ∧
    shadowed.slotIds = [1, 2, 7, 11, 21] ∧
    (check shadowed).frames.frames.toList.map (·.slots.size) = [4, 1] ∧
    SlotsMatch shadowed (check shadowed) := by
  have hparse : (parse "shadow.tig" (spelled "shadow.tig" shadowWords)).1 = .ok shadowed :=
    parse_eq_ok_getD (by decide +kernel)
  exact ⟨hparse, by decide +kernel, by decide +kernel, parse_frameSlots hparse⟩

end TigerLang
