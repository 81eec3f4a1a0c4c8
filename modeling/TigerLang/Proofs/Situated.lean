import TigerLang.Proofs.Effects
import TigerLang.Proofs.Surroundings

/-! How the state in which a part of a program is checked reflects what the part stands in: for every
surrounding there are scopes with the names that it brings, and for every function a frame. -/

namespace TigerLang

def Surrounding.ids : Surrounding → List Nat
  | .whileBody => []
  | .forBody node _ => [node.id]
  | .functionBody node params => node.id :: params.map (·.node.id)
  | .block decs before => before.map (·.node.id) ++ functionIds decs

def surroundIds (around : List Surrounding) : List Nat := around.flatMap Surrounding.ids

/-- What stays from one state to a later one: all frames, what has been found out about the nodes in
`noted`, and the slots and functions of those in `bound`. -/
structure Later (noted bound : List Nat) (s s' : Checker) : Prop where
  frames : ∀ {i : Nat} {f : Frame}, s.frames.frames[i]? = some f →
    ∃ f', s'.frames.frames[i]? = some f' ∧ f.Grows f'
  functions : s.facts.functions.toList <+: s'.facts.functions.toList
  facts : ∀ id ∈ noted, s.facts.AgreeAt s'.facts id
  slots : ∀ id ∈ bound, s'.facts.slots[id]? = s.facts.slots[id]?
  routineOf : ∀ id ∈ bound, s'.facts.routineOf[id]? = s.facts.routineOf[id]?
  diagnostics : s.diagnostics.toList <+: s'.diagnostics.toList

namespace Later
variable {noted bound : List Nat} {s s' s'' : Checker}

theorem of_grows {base current : Nat} {touched : Nat → Prop}
    (h : s.Grows base current touched s') (hnoted : ∀ id ∈ noted, ¬ touched id)
    (hbound : ∀ id ∈ bound, ¬ touched id) : Later noted bound s s' where
  frames hf := by
    obtain ⟨f', hf', hgrows, -⟩ := h.frames hf
    exact ⟨f', hf', hgrows⟩
  functions := h.functions
  facts id hid := h.facts (hnoted id hid)
  slots id hid := (h.facts (hbound id hid)).slots
  routineOf id hid := (h.facts (hbound id hid)).routineOf
  diagnostics := h.diagnostics

theorem of_same (hframes : s'.frames.frames = s.frames.frames) (hfacts : s'.facts = s.facts)
    (hdiagnostics : s.diagnostics.toList <+: s'.diagnostics.toList) : Later noted bound s s' where
  frames {_ f} hf := ⟨f, hframes ▸ hf, .refl f⟩
  functions := hfacts ▸ List.prefix_rfl
  facts _ _ := hfacts ▸ .refl _ _
  slots _ _ := hfacts ▸ rfl
  routineOf _ _ := hfacts ▸ rfl
  diagnostics := hdiagnostics

theorem trans (h : Later noted bound s s') (h' : Later noted bound s' s'') :
    Later noted bound s s'' where
  frames hf := by
    obtain ⟨f', hf', hgrows⟩ := h.frames hf
    obtain ⟨f'', hf'', hgrows'⟩ := h'.frames hf'
    exact ⟨f'', hf'', hgrows.trans hgrows'⟩
  functions := h.functions.trans h'.functions
  facts id hid := (h.facts id hid).trans (h'.facts id hid)
  slots id hid := (h'.slots id hid).trans (h.slots id hid)
  routineOf id hid := (h'.routineOf id hid).trans (h.routineOf id hid)
  diagnostics := h.diagnostics.trans h'.diagnostics

theorem mono (h : Later noted bound s s') {noted' bound' : List Nat} (hnoted : noted' ⊆ noted)
    (hbound : bound' ⊆ bound) : Later noted' bound' s s' :=
  ⟨h.frames, h.functions, fun id hid => h.facts id (hnoted hid),
    fun id hid => h.slots id (hbound hid), fun id hid => h.routineOf id (hbound hid), h.diagnostics⟩

theorem routine? (h : Later noted bound s s') {id : Nat} {info : Routine} (hid : id ∈ bound)
    (hinfo : s.facts.routine? id = some info) : s'.facts.routine? id = some info := by
  obtain ⟨k, hk, hget⟩ := Option.bind_eq_some_iff.mp hinfo
  refine Option.bind_eq_some_iff.mpr ⟨k, (h.routineOf id hid).trans hk, ?_⟩
  rw [← Array.getElem?_toList] at hget ⊢
  exact getElem?_of_prefix h.functions hget

theorem frameOf? (h : Later noted bound s s') {around : List Surrounding}
    (hbound : surroundIds around ⊆ bound) {frame : Nat}
    (hframe : TigerLang.frameOf? s.facts around = some frame) :
    TigerLang.frameOf? s'.facts around = some frame := by
  induction around with
  | nil => exact hframe
  | cons a around ih =>
    have hrest : surroundIds around ⊆ bound :=
      fun id hid => hbound (List.mem_append_right _ hid)
    cases a with
    | whileBody => exact ih hrest hframe
    | forBody node name => exact ih hrest hframe
    | block decs before => exact ih hrest hframe
    | functionBody node params =>
      obtain ⟨info, hinfo, rfl⟩ := Option.map_eq_some_iff.mp hframe
      have hnode : node.id ∈ bound := hbound (by simp [surroundIds, Surrounding.ids])
      exact Option.map_eq_some_iff.mpr ⟨info, h.routine? hnode hinfo, rfl⟩

end Later

structure HasSlot (s : Checker) (around : List Surrounding) (slot : Slot) : Prop where
  frame : frameOf? s.facts around = some slot.frame
  valid : ∃ f, s.frames.frames[slot.frame]? = some f ∧ f.level = slot.level ∧
    slot.offset < f.slots.size

def VarBound (s : Checker) (around : List Surrounding) : Option Nat → Option VarBinding → Prop
  | none, none => True
  | some id, some entry => s.facts.slots[id]? = some entry.slot ∧ HasSlot s around entry.slot
  | _, _ => False

def FunBound (s : Checker) : Option Nat → Option FunBinding → Prop
  | none, none => True
  | some id, some entry => ∃ k, entry.target = .user k ∧ s.facts.routineOf[id]? = some k
  | _, _ => False

structure Declared (s : Checker) (around : List Surrounding) (id : Nat) (info : Routine) :
    Prop where
  routine : s.facts.routine? id = some info
  frame : ∃ f p g, s.frames.frames[info.frame]? = some f ∧ f.level = info.level ∧
    f.parent = some p ∧ frameOf? s.facts around = some p ∧ s.frames.frames[p]? = some g ∧
    info.level = g.level + 1

inductive Stack (s : Checker) :
    List Surrounding → List (Scope VarBinding) → List (Scope FunBinding) → List Nat → Prop
  | nil {f : Frame} (hframe : s.frames.frames[Frames.mainFrame]? = some f) (hlevel : f.level = 0) :
      Stack s [] [] [] []
  | whileBody {around vars functions active} (h : Stack s around vars functions active) :
      Stack s (.whileBody :: around) vars functions active
  | forBody {around vars functions active node name scope} (h : Stack s around vars functions active)
      (hvars : ∀ n, VarBound s around ((Surrounding.forBody node name).binder? n) (scope.value? n)) :
      Stack s (.forBody node name :: around) (scope :: vars) functions active
  | functionBody {around vars functions active node params scope info}
      (h : Stack s around vars functions active) (hinfo : Declared s around node.id info)
      (hvars : ∀ n, VarBound s (.functionBody node params :: around)
        ((Surrounding.functionBody node params).binder? n) (scope.value? n)) :
      Stack s (.functionBody node params :: around) (scope :: vars) ([] :: functions)
        (info.frame :: active)
  | block {around vars functions active decs before scope fscope}
      (h : Stack s around vars functions active)
      (hvars : ∀ n, VarBound s around ((Surrounding.block decs before).binder? n) (scope.value? n))
      (hfunctions : ∀ n, FunBound s (functionDec? decs n) (fscope.value? n))
      (hdeclared : ∀ d ∈ decs, ∀ node name params result body,
        d = .function node name params result body →
        ∃ info, Declared s around node.id info ∧ info.params.length = params.length) :
      Stack s (.block decs before :: around) (scope :: vars) (fscope :: functions) active

structure Situated (around : List Surrounding) (s : Checker) : Prop where
  stack : Stack s around s.vars.inner s.functions.inner s.frames.active
  vars : s.vars.root = []
  functions : s.functions.root = Checker.libraryFunctions.root

theorem varDec?_mem {decs : List Dec} {name : String} {id : Nat} (h : varDec? decs name = some id) :
    id ∈ decs.map (·.node.id) := by
  obtain ⟨d, hd, hid⟩ := List.exists_of_findSome?_eq_some h
  cases d with
  | var node other typeName init =>
    dsimp only at hid
    split at hid
    · exact Option.some.inj hid ▸ List.mem_map_of_mem hd
    · simp at hid
  | type node other definition => simp at hid
  | function node other params result body => simp at hid

theorem functionDec?_mem {decs : List Dec} {name : String} {id : Nat}
    (h : functionDec? decs name = some id) :
    ∃ node other params result body, .function node other params result body ∈ decs ∧
      node.id = id := by
  obtain ⟨d, hd, hid⟩ := List.exists_of_findSome?_eq_some h
  cases d with
  | function node other params result body =>
    dsimp only at hid
    split at hid
    · exact ⟨node, other, params, result, body, hd, Option.some.inj hid⟩
    · simp at hid
  | var node other typeName init => simp at hid
  | type node other definition => simp at hid

theorem Surrounding.binder?_mem {a : Surrounding} {name : String} {id : Nat}
    (h : a.binder? name = some id) : id ∈ a.ids := by
  cases a with
  | whileBody => simp [binder?] at h
  | forBody node other =>
    simp only [binder?] at h
    split at h
    · simpa [ids] using (Option.some.inj h).symm
    · simp at h
  | functionBody node params =>
    obtain ⟨param, hparam, rfl⟩ := Option.map_eq_some_iff.mp h
    exact List.mem_cons_of_mem _ (List.mem_map_of_mem (List.mem_of_find?_eq_some hparam))
  | block decs before => exact List.mem_append_left _ (varDec?_mem h)

theorem function_mem_functionIds {decs : List Dec} {node : Node} {name : String}
    {params : List Field} {result : Option String} {body : Exp}
    (h : .function node name params result body ∈ decs) : node.id ∈ functionIds decs :=
  List.mem_map.mpr ⟨.function node name params result body, List.mem_filter.mpr ⟨h, rfl⟩, rfl⟩

theorem function_mem_ids {decs before : List Dec} {node : Node} {name : String}
    {params : List Field} {result : Option String} {body : Exp}
    (h : .function node name params result body ∈ decs) :
    node.id ∈ (Surrounding.block decs before).ids :=
  List.mem_append_right _ (function_mem_functionIds h)

section later
variable {noted bound : List Nat} {s s' : Checker} {around : List Surrounding}

theorem HasSlot.later {slot : Slot} (h : HasSlot s around slot) (hlater : Later noted bound s s')
    (hbound : surroundIds around ⊆ bound) : HasSlot s' around slot := by
  obtain ⟨f, hf, hlevel, hoffset⟩ := h.valid
  obtain ⟨f', hf', hgrows⟩ := hlater.frames hf
  refine ⟨hlater.frameOf? hbound h.frame, f', hf', hgrows.level.trans hlevel, ?_⟩
  have hle : f.slots.size ≤ f'.slots.size := by simpa using hgrows.slots.length_le
  omega

theorem VarBound.later {id : Option Nat} {entry : Option VarBinding}
    (h : VarBound s around id entry) (hlater : Later noted bound s s')
    (hbound : surroundIds around ⊆ bound) (hid : ∀ i, id = some i → i ∈ bound) :
    VarBound s' around id entry := by
  match id, entry, h with
  | none, none, _ => trivial
  | some i, some entry, h => exact ⟨(hlater.slots i (hid i rfl)).trans h.1, h.2.later hlater hbound⟩

theorem FunBound.later {id : Option Nat} {entry : Option FunBinding} (h : FunBound s id entry)
    (hlater : Later noted bound s s') (hid : ∀ i, id = some i → i ∈ bound) :
    FunBound s' id entry := by
  match id, entry, h with
  | none, none, _ => trivial
  | some i, some entry, ⟨k, htarget, hk⟩ =>
    exact ⟨k, htarget, (hlater.routineOf i (hid i rfl)).trans hk⟩

theorem Declared.later {id : Nat} {info : Routine} (h : Declared s around id info)
    (hlater : Later noted bound s s') (hbound : surroundIds around ⊆ bound) (hid : id ∈ bound) :
    Declared s' around id info := by
  obtain ⟨f, p, g, hf, hlevel, hparent, hp, hg, hinfo⟩ := h.frame
  obtain ⟨f', hf', hgrows⟩ := hlater.frames hf
  obtain ⟨g', hg', hgrows'⟩ := hlater.frames hg
  exact ⟨hlater.routine? hid h.routine, f', p, g', hf', hgrows.level.trans hlevel,
    hgrows.parent.trans hparent, hlater.frameOf? hbound hp, hg', hgrows'.level ▸ hinfo⟩

theorem Stack.later {vars : List (Scope VarBinding)} {functions : List (Scope FunBinding)}
    {active : List Nat} (h : Stack s around vars functions active) (hlater : Later noted bound s s')
    (hbound : surroundIds around ⊆ bound) : Stack s' around vars functions active := by
  induction h with
  | nil hframe hlevel =>
    obtain ⟨f', hf', hgrows⟩ := hlater.frames hframe
    exact .nil hf' (hgrows.level.trans hlevel)
  | whileBody _ ih => exact .whileBody (ih hbound)
  | @forBody around _ _ _ node name scope _ hvars ih =>
    have hrest : surroundIds around ⊆ bound := fun id hid => hbound (List.mem_append_right _ hid)
    refine .forBody (ih hrest) fun n => (hvars n).later hlater hrest fun i hi => ?_
    exact hbound (List.mem_append_left _ (Surrounding.binder?_mem hi))
  | @functionBody around _ _ _ node params scope info _ hinfo hvars ih =>
    have hrest : surroundIds around ⊆ bound := fun id hid => hbound (List.mem_append_right _ hid)
    have hnode : node.id ∈ bound := hbound (by simp [surroundIds, Surrounding.ids])
    refine .functionBody (ih hrest) (hinfo.later hlater hrest hnode)
      fun n => (hvars n).later hlater hbound fun i hi => ?_
    exact hbound (List.mem_append_left _ (Surrounding.binder?_mem hi))
  | @block around _ _ _ decs before scope fscope _ hvars hfunctions hdeclared ih =>
    have hrest : surroundIds around ⊆ bound := fun id hid => hbound (List.mem_append_right _ hid)
    refine .block (ih hrest) (fun n => (hvars n).later hlater hrest fun i hi => ?_)
      (fun n => (hfunctions n).later hlater fun i hi => ?_) fun d hd node name params result body heq => ?_
    · exact hbound (List.mem_append_left _ (Surrounding.binder?_mem hi))
    · obtain ⟨node, other, params, result, body, hd, rfl⟩ := functionDec?_mem hi
      exact hbound (List.mem_append_left _ (function_mem_ids hd))
    · obtain ⟨info, hinfo, hlength⟩ := hdeclared d hd node name params result body heq
      exact ⟨info, hinfo.later hlater hrest
        (hbound (List.mem_append_left _ (function_mem_ids (heq ▸ hd)))), hlength⟩

theorem Situated.later (h : Situated around s) (henv : s.SameEnv s') (hlater : Later noted bound s s')
    (hbound : surroundIds around ⊆ bound) : Situated around s' where
  stack := by
    rw [henv.vars, henv.functions, henv.active]
    exact h.stack.later hlater hbound
  vars := henv.vars ▸ h.vars
  functions := henv.functions ▸ h.functions

theorem Situated.keeps {touched : Nat → Prop} (h : Situated around s) (hkeeps : s.Keeps touched s')
    (hdisjoint : ∀ id ∈ surroundIds around, ¬ touched id) : Situated around s' := by
  have hlater : Later [] (surroundIds around) s s' := .of_grows hkeeps.grows (by simp) hdisjoint
  exact h.later hkeeps.env hlater (List.Subset.refl _)

end later

theorem Stack.frame {s : Checker} {around : List Surrounding} {vars : List (Scope VarBinding)}
    {functions : List (Scope FunBinding)} {active : List Nat}
    (h : Stack s around vars functions active) :
    frameOf? s.facts around = some (active.head?.getD Frames.mainFrame) ∧
      ∃ f, s.frames.frames[active.head?.getD Frames.mainFrame]? = some f := by
  induction h with
  | nil hframe _ => exact ⟨rfl, _, hframe⟩
  | whileBody _ ih => exact ih
  | forBody _ _ ih => exact ih
  | functionBody _ hinfo _ _ =>
    obtain ⟨f, _, _, hf, _⟩ := hinfo.frame
    exact ⟨Option.map_eq_some_iff.mpr ⟨_, hinfo.routine, rfl⟩, f, hf⟩
  | block _ _ _ _ ih => exact ih

theorem Situated.current {around : List Surrounding} {s : Checker} (h : Situated around s) :
    frameOf? s.facts around = some s.frames.current ∧
      ∃ f, s.frames.frames[s.frames.current]? = some f ∧ s.frames.level = f.level := by
  obtain ⟨hframe, f, hf⟩ := h.stack.frame
  have hcurrent : s.frames.frames[s.frames.current]? = some f := hf
  refine ⟨hframe, f, hcurrent, ?_⟩
  rw [Frames.level, hcurrent]
  rfl

theorem frameOf?_congr (a a' : Facts) (hroutineOf : a'.routineOf = a.routineOf)
    (hfunctions : a'.functions = a.functions) (around : List Surrounding) :
    frameOf? a' around = frameOf? a around := by
  induction around with
  | nil => rfl
  | cons b around ih =>
    cases b with
    | functionBody node params => simp only [frameOf?, Facts.routine?, hroutineOf, hfunctions]
    | whileBody => exact ih
    | forBody node name => exact ih
    | block decs before => exact ih

theorem VarBound.congr {s s' : Checker} {around : List Surrounding} {id : Option Nat}
    {entry : Option VarBinding} (h : VarBound s around id entry) (hfacts : s'.facts = s.facts)
    (hframes : s'.frames = s.frames) : VarBound s' around id entry := by
  match id, entry, h with
  | none, none, _ => trivial
  | some i, some entry, h =>
    exact ⟨hfacts ▸ h.1, hfacts ▸ h.2.frame, hframes ▸ h.2.valid⟩

theorem VarBound.of_frame {s : Checker} {around around' : List Surrounding} {id : Option Nat}
    {entry : Option VarBinding} (h : VarBound s around id entry)
    (hframe : frameOf? s.facts around' = frameOf? s.facts around) :
    VarBound s around' id entry := by
  match id, entry, h with
  | none, none, _ => trivial
  | some i, some entry, h => exact ⟨h.1, hframe.trans h.2.frame, h.2.valid⟩

section binding
variable {s : Checker} {around : List Surrounding} {f : Frame}

theorem hasSlot_reserve (hframe : frameOf? s.facts around = some s.frames.current)
    (hf : s.frames.frames[s.frames.current]? = some f) (node : Node) (ty : Ty) :
    ((CheckM.reserve ty >>= CheckM.noteSlot node).run s).2.facts.slots[node.id]? =
        some ((CheckM.reserve ty).run s).1 ∧
      HasSlot ((CheckM.reserve ty >>= CheckM.noteSlot node).run s).2 around
        ((CheckM.reserve ty).run s).1 := by
  have hlevel : s.frames.level = f.level := by
    rw [Frames.level, hf]
    rfl
  have hoffset : ((CheckM.reserve ty).run s).1.offset = f.slots.size := by
    change ((s.frames.frames[s.frames.current]?).map fun f => f.slots.size).getD 0 = _
    rw [hf]
    rfl
  have hpush : (s.frames.frames.modify s.frames.current fun f =>
      { f with slots := f.slots.push ty })[s.frames.current]? =
        some { f with slots := f.slots.push ty } := by
    rw [Array.getElem?_modify, if_pos rfl, hf]
    rfl
  refine ⟨NodeMap.getElem?_insert_self _ _ _, ?_, _, hpush, hlevel.symm, ?_⟩
  · have hsame : frameOf? ((CheckM.reserve ty >>= CheckM.noteSlot node).run s).2.facts around =
        frameOf? s.facts around :=
      frameOf?_congr s.facts ((CheckM.reserve ty >>= CheckM.noteSlot node).run s).2.facts rfl rfl
        around
    exact hsame.trans hframe
  · rw [hoffset, Array.size_push]
    exact Nat.lt_succ_self _

theorem VarBound.define {scope : Scope VarBinding} {binder : String → Option Nat}
    (h : ∀ n, VarBound s around (binder n) (scope.value? n)) {id : Nat} (entry : VarBinding)
    (hslot : s.facts.slots[id]? = some entry.slot) (hentry : HasSlot s around entry.slot)
    (name n : String) :
    VarBound s around ((binder n).or (if name = n then some id else none))
      ((if (scope.value? name).isSome then scope else scope.bind name entry).value? n) := by
  have hn := h n
  rw [Scope.value?_bind_new]
  match hid : binder n, hvalue : scope.value? n with
  | some i, some old => rwa [hid, hvalue] at hn
  | some i, none => simp [hid, hvalue, VarBound] at hn
  | none, some old => simp [hid, hvalue, VarBound] at hn
  | none, none =>
    by_cases hname : name = n
    · simpa only [hname, if_true] using ⟨hslot, hentry⟩
    · simp only [hname, if_false]
      trivial

theorem declareVar_binds (hs : AllResolved s.types) (hframe : frameOf? s.facts around = some s.frames.current)
    (hf : s.frames.frames[s.frames.current]? = some f) {scope : Scope VarBinding}
    {outer : Scopes VarBinding} (hvars : s.vars = outer.within scope)
    {binder : String → Option Nat} (hbinder : ∀ n, VarBound s around (binder n) (scope.value? n))
    {node : Node} (hids : ∀ n i, binder n = some i → i ≠ node.id)
    (hnode : node.id ∉ surroundIds around) (name : String) (ty : Ty) :
    ∃ scope', ((CheckM.declareVar node name ty).run s).2.vars = outer.within scope' ∧
      ∀ n, VarBound ((CheckM.declareVar node name ty).run s).2 around
        ((binder n).or (if name = n then some node.id else none)) (scope'.value? n) := by
  obtain ⟨hslot, hhas⟩ := hasSlot_reserve hframe hf node ty
  set slot := ((CheckM.reserve ty).run s).1
  set s₁ := ((CheckM.reserve ty >>= CheckM.noteSlot node).run s).2
  have hnote : Keeps (· = node.id) (CheckM.reserve ty >>= CheckM.noteSlot node) :=
    (Keeps.reserve ty).bind fun slot => .noteSlot node slot rfl
  have hkeeps := hnote s hs
  have hbound : ∀ n, VarBound s₁ around (binder n) (scope.value? n) := by
    intro n
    have hlater : Later [] (surroundIds around ++ (binder n).toList) s s₁ := by
      refine .of_grows hkeeps.grows (by simp) fun id hid => ?_
      rcases List.mem_append.mp hid with hid | hid
      · exact fun heq => hnode (heq ▸ hid)
      · exact hids n id (Option.mem_toList.mp hid)
    refine (hbinder n).later hlater (List.subset_append_left _ _) fun i hi => ?_
    exact List.mem_append_right _ (Option.mem_toList.mpr hi)
  have hdefine := VarBound.define hbound ⟨ty, slot, false⟩ hslot hhas name
  have hvars₁ : s₁.vars = outer.within scope := hkeeps.env.vars.trans hvars
  have hrun : (CheckM.declareVar node name ty).run s =
      (CheckM.defineVar name ⟨ty, slot, false⟩ node.span.start).run s₁ := rfl
  refine ⟨if (scope.value? name).isSome then scope else scope.bind name ⟨ty, slot, false⟩, ?_,
    fun n => ?_⟩
  · rw [hrun, CheckM.defineVar_run, hvars₁, Scopes.hasHere_within]
    split
    · exact hvars₁
    · rfl
  · have hoff : ((CheckM.defineVar name ⟨ty, slot, false⟩ node.span.start).run s₁).2.facts =
          s₁.facts ∧
        ((CheckM.defineVar name ⟨ty, slot, false⟩ node.span.start).run s₁).2.frames =
          s₁.frames := by
      rw [CheckM.defineVar_run]
      split <;> exact ⟨rfl, rfl⟩
    exact (hdefine n).congr hoff.1 hoff.2

theorem declareVar_grows (hs : AllResolved s.types) (node : Node) (name : String) (ty : Ty) :
    s.Grows s.frames.frames.size s.frames.current (· = node.id)
        ((CheckM.declareVar node name ty).run s).2 ∧
      ((CheckM.declareVar node name ty).run s).2.functions = s.functions ∧
      ((CheckM.declareVar node name ty).run s).2.frames.active = s.frames.active ∧
      ((CheckM.declareVar node name ty).run s).2.types = s.types := by
  have hnote : Keeps (· = node.id) (CheckM.reserve ty >>= CheckM.noteSlot node) :=
    (Keeps.reserve ty).bind fun slot => .noteSlot node slot rfl
  have hkeeps := hnote s hs
  have hrun : (CheckM.declareVar node name ty).run s =
      (CheckM.defineVar name ⟨ty, ((CheckM.reserve ty).run s).1, false⟩ node.span.start).run
        ((CheckM.reserve ty >>= CheckM.noteSlot node).run s).2 := rfl
  rw [hrun, CheckM.defineVar_run]
  split
  · have hreport := Checker.Reports.report ((CheckM.reserve ty >>= CheckM.noteSlot node).run s).2
      (.redefinition .variable name) node.span.start
    exact ⟨hkeeps.grows.trans (.of_reports hreport), hkeeps.env.functions, hkeeps.env.active,
      hkeeps.env.types⟩
  · exact ⟨hkeeps.grows.congr ⟨rfl, rfl, rfl, rfl, rfl⟩ ⟨rfl, rfl, rfl, rfl, rfl⟩,
      hkeeps.env.functions, hkeeps.env.active, hkeeps.env.types⟩

end binding

section inversion
variable {s : Checker} {around : List Surrounding} {vars : List (Scope VarBinding)}
  {functions : List (Scope FunBinding)} {active : List Nat}

theorem Stack.of_block {decs before : List Dec}
    (h : Stack s (.block decs before :: around) vars functions active) :
    ∃ scope vars' fscope functions', vars = scope :: vars' ∧ functions = fscope :: functions' ∧
      Stack s around vars' functions' active ∧
      (∀ n, VarBound s around ((Surrounding.block decs before).binder? n) (scope.value? n)) ∧
      (∀ n, FunBound s (functionDec? decs n) (fscope.value? n)) ∧
      ∀ d ∈ decs, ∀ node name params result body, d = .function node name params result body →
        ∃ info, Declared s around node.id info ∧ info.params.length = params.length := by
  cases h with
  | @block _ vars' functions' _ _ _ scope fscope hstack hvars hfunctions hdeclared =>
    exact ⟨scope, vars', fscope, functions', rfl, rfl, hstack, hvars, hfunctions, hdeclared⟩

theorem Stack.of_functionBody {node : Node} {params : List Field}
    (h : Stack s (.functionBody node params :: around) vars functions active) :
    ∃ scope vars' functions' active' info, vars = scope :: vars' ∧ functions = [] :: functions' ∧
      active = info.frame :: active' ∧ Stack s around vars' functions' active' ∧
      Declared s around node.id info ∧
      ∀ n, VarBound s (.functionBody node params :: around)
        ((Surrounding.functionBody node params).binder? n) (scope.value? n) := by
  cases h with
  | @functionBody _ vars' functions' active' _ _ scope info hstack hinfo hvars =>
    exact ⟨scope, vars', functions', active', info, rfl, rfl, rfl, hstack, hinfo, hvars⟩

end inversion

theorem varDec?_append (before decs : List Dec) (name : String) :
    varDec? (before ++ decs) name = (varDec? before name).or (varDec? decs name) := by
  rw [varDec?, List.findSome?_append]
  rfl

theorem varDec?_var (node : Node) (name : String) (typeName : Option String) (init : Exp)
    (n : String) : varDec? [.var node name typeName init] n =
      if name = n then some node.id else none := by
  by_cases h : name = n <;> simp [varDec?, h]

theorem functionDec?_append (before decs : List Dec) (name : String) :
    functionDec? (before ++ decs) name = (functionDec? before name).or (functionDec? decs name) := by
  rw [functionDec?, List.findSome?_append]
  rfl

theorem binder?_param (node : Node) (done : List Field) (param : Field) (n : String) :
    (Surrounding.functionBody node (done ++ [param])).binder? n =
      ((Surrounding.functionBody node done).binder? n).or
        (if param.name = n then some param.node.id else none) := by
  simp only [Surrounding.binder?, List.find?_append, Option.map_or]
  by_cases h : param.name = n <;> simp [h]

theorem Scopes.eq_within {α : Type} {t : Scopes α} {scope : Scope α} {inner : List (Scope α)}
    (h : t.inner = scope :: inner) : t = Scopes.within ⟨inner, t.root⟩ scope := by
  obtain ⟨i, r⟩ := t
  obtain rfl : i = scope :: inner := h
  rfl

namespace Situated
variable {s : Checker} {around : List Surrounding} {all before : List Dec}

theorem var (h : Situated (.block all before :: around) s) (hs : AllResolved s.types) {node : Node}
    (hnode : node.id ∉ surroundIds (.block all before :: around)) (name : String)
    (typeName : Option String) (init : Exp) (ty : Ty) :
    Situated (.block all (before ++ [.var node name typeName init]) :: around)
      ((CheckM.declareVar node name ty).run s).2 := by
  obtain ⟨hframe, f, hf, -⟩ := h.current
  obtain ⟨scope, vars, fscope, functions, hvars, hfunctions, -, hbound, -⟩ := h.stack.of_block
  obtain ⟨hgrows, hfunctions', hactive, -⟩ := declareVar_grows hs node name ty
  have hframe' : frameOf? s.facts around = some s.frames.current := hframe
  have hrest : node.id ∉ surroundIds around :=
    fun hmem => hnode (List.mem_append_right _ hmem)
  have hids : ∀ n i, (Surrounding.block all before).binder? n = some i → i ≠ node.id :=
    fun n i hi heq => hnode (List.mem_append_left _ (heq ▸ Surrounding.binder?_mem hi))
  obtain ⟨scope', hvars', hbound'⟩ := declareVar_binds hs hframe' hf
    (Scopes.eq_within hvars) hbound hids hrest name ty
  have hlater : Later [] (surroundIds (.block all before :: around)) s
      ((CheckM.declareVar node name ty).run s).2 :=
    .of_grows hgrows (by simp) fun id hid heq => hnode (heq ▸ hid)
  have hstack := h.stack.later hlater (List.Subset.refl _)
  rw [hvars, hfunctions] at hstack
  obtain ⟨_, _, _, _, hv, hg, hstack, -, hfun, hdeclared⟩ := hstack.of_block
  cases hv
  cases hg
  refine ⟨?_, ?_, hfunctions' ▸ h.functions⟩
  · rw [hvars', hfunctions', hfunctions, hactive]
    refine .block hstack (fun n => ?_) hfun hdeclared
    have hn := hbound' n
    rwa [Surrounding.binder?, varDec?_append, varDec?_var]
  · rw [hvars']
    exact h.vars

theorem other (h : Situated (.block all before :: around) s) {d : Dec}
    (hd : ∀ n, varDec? [d] n = none) : Situated (.block all (before ++ [d]) :: around) s := by
  obtain ⟨scope, vars, fscope, functions, hvars, hfunctions, hstack, hbound, hfun, hdeclared⟩ :=
    h.stack.of_block
  refine ⟨?_, h.vars, h.functions⟩
  rw [hvars, hfunctions]
  refine .block hstack (fun n => ?_) hfun hdeclared
  have hn := hbound n
  rwa [Surrounding.binder?, varDec?_append, hd, Option.or_none]

theorem entered (h : Situated around s) : Situated (.block [] [] :: around) s.entered := by
  have hlater : Later [] (surroundIds around) s s.entered := .of_same rfl rfl List.prefix_rfl
  refine ⟨?_, h.vars, h.functions⟩
  refine .block (h.stack.later hlater (List.Subset.refl _)) (fun n => ?_) (fun n => ?_) (by simp)
  · trivial
  · trivial

theorem later_enterFunction {node : Node} {bound : List Nat} (hnode : node.id ∉ bound)
    (name : String) (params : List Ty) (result : Ty) :
    Later [] bound s ((CheckM.enterFunction node name params result).run s).2 := by
  have hadd : s.Grows 0 0 (· = node.id) (s.withFunction node name params result) :=
    Checker.grows_withFunction (Nat.zero_le _) (by rfl) name params result
  obtain ⟨hfacts, hframes⟩ := CheckM.enterFunction_output node name params result s
  refine Later.trans (.of_grows hadd (by simp) fun id hid heq => hnode (heq ▸ hid))
    (.of_same (congrArg Frames.frames hframes) hfacts ?_)
  rw [CheckM.enterFunction_run]
  split
  · exact diagnostics_report _ _ _
  · exact List.prefix_rfl

theorem declared_enterFunction (h : Situated around s) {node : Node}
    (hnode : node.id ∉ surroundIds around) (name : String) (params : List Ty) (result : Ty) :
    Declared ((CheckM.enterFunction node name params result).run s).2 around node.id
      (s.newRoutine node name params result) := by
  obtain ⟨hframe, g, hg, hlevel⟩ := h.current
  have hlater : Later [] (surroundIds around) s
      ((CheckM.enterFunction node name params result).run s).2 :=
    later_enterFunction hnode name params result
  obtain ⟨g', hg', hgrows⟩ := hlater.frames hg
  have hpush : ((CheckM.enterFunction node name params result).run s).2.frames.frames[
      s.frames.frames.size]? = some ⟨name ++ "." ++ node.id.repr, s.frames.level + 1,
        some s.frames.current, #[], false⟩ := by
    rw [(CheckM.enterFunction_output node name params result s).2]
    exact Array.getElem?_push_size
  refine ⟨CheckM.routine?_enterFunction node name params result s, _, s.frames.current, g', hpush,
    rfl, rfl, hlater.frameOf? (List.Subset.refl _) hframe, hg', ?_⟩
  rw [hgrows.level, ← hlevel]
  rfl

end Situated

theorem FunBound.define {s : Checker} {scope : Scope FunBinding} {callee : String → Option Nat}
    (h : ∀ n, FunBound s (callee n) (scope.value? n)) {id k : Nat} (entry : FunBinding)
    (htarget : entry.target = .user k) (hk : s.facts.routineOf[id]? = some k) (name n : String) :
    FunBound s ((callee n).or (if name = n then some id else none))
      ((if (scope.value? name).isSome then scope else scope.bind name entry).value? n) := by
  have hn := h n
  rw [Scope.value?_bind_new]
  match hid : callee n, hvalue : scope.value? n with
  | some i, some old => rwa [hid, hvalue] at hn
  | some i, none => simp [hid, hvalue, FunBound] at hn
  | none, some old => simp [hid, hvalue, FunBound] at hn
  | none, none =>
    by_cases hname : name = n
    · simpa only [hname, if_true] using ⟨k, htarget, hk⟩
    · simp only [hname, if_false]
      trivial

theorem functionDec?_function (node : Node) (name : String) (params : List Field)
    (result : Option String) (body : Exp) (n : String) :
    functionDec? [.function node name params result body] n =
      if name = n then some node.id else none := by
  by_cases h : name = n <;> simp [functionDec?, h]

namespace Situated
variable {s : Checker} {around : List Surrounding} {done : List Dec}

theorem heading (h : Situated (.block done [] :: around) s) {node : Node}
    (hnode : node.id ∉ surroundIds (.block done [] :: around)) (name : String)
    {params : List Field} (result : Option String) (body : Exp) (types : List Ty)
    (htypes : types.length = params.length) (ty : Ty) :
    Situated (.block (done ++ [.function node name params result body]) [] :: around)
      ((CheckM.enterFunction node name types ty).run s).2 := by
  obtain ⟨scope, vars, fscope, functions, hvars, hfunctions, -, -⟩ := h.stack.of_block
  have hlater : Later [] (surroundIds (.block done [] :: around)) s
      ((CheckM.enterFunction node name types ty).run s).2 := later_enterFunction hnode name types ty
  have hstack := h.stack.later hlater (List.Subset.refl _)
  rw [hvars, hfunctions] at hstack
  obtain ⟨_, _, _, _, hv, hg, hstack, hbound, hfun, hdeclared⟩ := hstack.of_block
  cases hv
  cases hg
  have hnew := h.declared_enterFunction hnode name types ty
  have hk : ((CheckM.enterFunction node name types ty).run s).2.facts.routineOf[node.id]? =
      some s.facts.functions.size := by
    rw [(CheckM.enterFunction_output node name types ty s).1]
    exact NodeMap.getElem?_insert_self _ _ _
  have hdefine := FunBound.define hfun ⟨types, ty, .user s.facts.functions.size⟩ rfl hk name
  have hinner : ((CheckM.enterFunction node name types ty).run s).2.functions =
      Scopes.within ⟨functions, s.functions.root⟩
        (if (fscope.value? name).isSome then fscope
          else fscope.bind name ⟨types, ty, .user s.facts.functions.size⟩) := by
    have heq := Scopes.eq_within hfunctions
    rw [CheckM.enterFunction_run, heq, Scopes.hasHere_within]
    split
    · exact heq
    · exact congrArg (fun t => t.bind name ⟨types, ty, .user s.facts.functions.size⟩) heq
  have hsame : ((CheckM.enterFunction node name types ty).run s).2.vars = s.vars ∧
      ((CheckM.enterFunction node name types ty).run s).2.frames.active = s.frames.active := by
    rw [CheckM.enterFunction_run]
    split <;> exact ⟨rfl, rfl⟩
  refine ⟨?_, hsame.1 ▸ h.vars, ?_⟩
  · rw [hsame.1, hsame.2, hvars, hinner]
    refine .block hstack hbound (fun n => ?_)
      fun d hd node' name' params' result' body' heq => ?_
    · rw [functionDec?_append, functionDec?_function]
      exact hdefine n
    · rcases List.mem_append.mp hd with hd | hd
      · exact hdeclared d hd node' name' params' result' body' heq
      · rw [List.mem_singleton.mp hd] at heq
        cases heq
        exact ⟨_, ⟨hnew.routine, hnew.frame⟩, htypes⟩
  · rw [hinner]
    exact h.functions

end Situated

namespace Situated
variable {s s' : Checker} {around : List Surrounding} {done : List Dec}

theorem noHeading (h : Situated (.block done [] :: around) s) {d : Dec} (hd : d.isFunction = false) :
    Situated (.block (done ++ [d]) [] :: around) s := by
  obtain ⟨scope, vars, fscope, functions, hvars, hfunctions, hstack, hbound, hfun, hdeclared⟩ :=
    h.stack.of_block
  refine ⟨?_, h.vars, h.functions⟩
  rw [hvars, hfunctions]
  refine .block hstack hbound (fun n => ?_) fun d' hd' node name params result body heq => ?_
  · have hnone : functionDec? [d] n = none := by
      cases d with
      | function node name params result body => simp [Dec.isFunction] at hd
      | var node name typeName init => rfl
      | type node name definition => rfl
    rw [functionDec?_append, hnone, Option.or_none]
    exact hfun n
  · rcases List.mem_append.mp hd' with hd' | hd'
    · exact hdeclared d' hd' node name params result body heq
    · rw [List.mem_singleton.mp hd'] at heq
      simp [heq, Dec.isFunction] at hd

theorem headings (decs : List Dec) (h : Situated (.block done [] :: around) s)
    (hs : AllResolved s.types) (hnodup : (functionIds decs).Nodup)
    (hnew : ∀ id ∈ functionIds decs, id ∉ surroundIds (.block done [] :: around)) :
    Situated (.block (done ++ decs) [] :: around) ((CheckM.declareHeadings decs).run s).2 := by
  induction decs generalizing done s with
  | nil =>
    rw [List.append_nil]
    exact h
  | cons d decs ih =>
    rw [List.append_cons]
    cases d with
    | var node name typeName init =>
      have hids : functionIds (done ++ [.var node name typeName init]) = functionIds done := by
        rw [functionIds_append]
        exact List.append_nil _
      refine ih (h.noHeading rfl) hs hnodup fun id hid => ?_
      rw [surroundIds, List.flatMap_cons, Surrounding.ids, hids]
      exact hnew id hid
    | type node name definition =>
      have hids : functionIds (done ++ [.type node name definition]) = functionIds done := by
        rw [functionIds_append]
        exact List.append_nil _
      refine ih (h.noHeading rfl) hs hnodup fun id hid => ?_
      rw [surroundIds, List.flatMap_cons, Surrounding.ids, hids]
      exact hnew id hid
    | function node name params result body =>
      rw [functionIds_function] at hnodup hnew
      rw [List.nodup_cons] at hnodup
      have hnode := hnew node.id List.mem_cons_self
      obtain ⟨s₁, hreports, hrun⟩ := CheckM.declareHeading_run hs node name params result
      have hkeeps : s.Keeps (fun _ => False) s₁ := .of_reports hreports
      have hheading := (h.keeps hkeeps (by simp)).heading hnode name result body
        (params.map fun param => typeIn s.types param.typeName) (List.length_map _)
        (CheckM.resultIn s.types result)
      have hresolved : AllResolved
          ((CheckM.declareHeading node name params result).run s).2.types := by
        rw [hrun, CheckM.enterFunction_types, hreports.types]
        exact hs
      have hcons : (CheckM.declareHeadings (.function node name params result body :: decs)).run s =
          (CheckM.declareHeadings decs).run
            ((CheckM.declareHeading node name params result).run s).2 := rfl
      rw [← hrun] at hheading
      rw [hcons]
      refine ih hheading hresolved hnodup.2 fun id hid => ?_
      have hold := hnew id (List.mem_cons_of_mem _ hid)
      have hne : id ≠ node.id := fun heq => hnodup.1 (heq ▸ hid)
      simpa [surroundIds, Surrounding.ids, functionIds_append, functionIds_function, hne] using hold

theorem declareTypes (h : Situated around s) (hs : AllResolved s.types) (decs : List Dec) :
    Situated (.block [] [] :: around)
      ((CheckM.declareTypes decs >>= CheckM.resolveTypes).run s.entered).2 := by
  obtain ⟨scope, hsettled⟩ := CheckM.declareTypes_resolveTypes hs (s := s.entered) rfl decs
  have helsewhere := hsettled.resolving.elsewhere
  have hentered := h.entered
  refine ⟨?_, helsewhere.vars ▸ hentered.vars, helsewhere.functions ▸ hentered.functions⟩
  rw [helsewhere.vars, helsewhere.functions, helsewhere.frames]
  have hlater : Later [] (surroundIds (.block [] [] :: around)) s.entered
      ((CheckM.declareTypes decs >>= CheckM.resolveTypes).run s.entered).2 :=
    .of_same (congrArg Frames.frames helsewhere.frames) helsewhere.facts
      hsettled.resolving.diagnostics
  exact hentered.stack.later hlater (List.Subset.refl _)

theorem declareBlock (h : Situated around s) (hs : AllResolved s.types) (decs : List Dec)
    (hnodup : (functionIds decs).Nodup) (hnew : ∀ id ∈ functionIds decs, id ∉ surroundIds around) :
    Situated (.block decs [] :: around) ((CheckM.declareBlock decs).run s.entered).2 := by
  obtain ⟨scope, hsettled⟩ := CheckM.declareTypes_resolveTypes hs (s := s.entered) rfl decs
  have hresolved : AllResolved
      ((CheckM.declareTypes decs >>= CheckM.resolveTypes).run s.entered).2.types := by
    rw [hsettled.resolving.types]
    exact hs.within hsettled.settled
  exact (h.declareTypes hs decs).headings decs hresolved hnodup hnew

def functionEntered (s : Checker) (frame : Nat) : Checker :=
  ({ s with frames := s.frames.enter frame, loopDepth := 0 } : Checker).entered

theorem function {all before : List Dec} (h : Situated (.block all before :: around) s)
    {node : Node} {name : String} {params : List Field} {result : Option String} {body : Exp}
    (hmem : .function node name params result body ∈ all) :
    ∃ info, s.facts.routine? node.id = some info ∧ info.params.length = params.length ∧
      Situated (.functionBody node [] :: .block all before :: around)
        (functionEntered s info.frame) := by
  obtain ⟨_, _, _, _, -, -, -, -, -, hdeclared⟩ := h.stack.of_block
  obtain ⟨info, hinfo, hlength⟩ := hdeclared _ hmem node name params result body rfl
  refine ⟨info, hinfo.routine, hlength, ?_, h.vars, h.functions⟩
  have hlater : Later [] (surroundIds (.block all before :: around)) s
      (functionEntered s info.frame) := .of_same rfl rfl List.prefix_rfl
  exact .functionBody (h.stack.later hlater (List.Subset.refl _)) ⟨hinfo.routine, hinfo.frame⟩
    fun n => trivial

theorem param {node : Node} {done : List Field} (h : Situated (.functionBody node done :: around) s)
    (hs : AllResolved s.types) {param : Field}
    (hparam : param.node.id ∉ surroundIds (.functionBody node done :: around)) (ty : Ty) :
    Situated (.functionBody node (done ++ [param]) :: around)
      ((CheckM.declareVar param.node param.name ty).run s).2 := by
  obtain ⟨hframe, f, hf, -⟩ := h.current
  obtain ⟨scope, vars, functions, active, info, hvars, hfunctions, hactive, -, -, hbound⟩ :=
    h.stack.of_functionBody
  obtain ⟨hgrows, hfunctions', hactive', -⟩ := declareVar_grows hs param.node param.name ty
  have hids : ∀ n i, (Surrounding.functionBody node done).binder? n = some i → i ≠ param.node.id :=
    fun n i hi heq => hparam (List.mem_append_left _ (heq ▸ Surrounding.binder?_mem hi))
  obtain ⟨scope', hvars', hbound'⟩ := declareVar_binds hs hframe hf (Scopes.eq_within hvars) hbound
    hids hparam param.name ty
  have hlater : Later [] (surroundIds (.functionBody node done :: around)) s
      ((CheckM.declareVar param.node param.name ty).run s).2 :=
    .of_grows hgrows (by simp) fun id hid heq => hparam (heq ▸ hid)
  have hstack := h.stack.later hlater (List.Subset.refl _)
  rw [hvars, hfunctions, hactive] at hstack
  obtain ⟨_, _, _, _, info', hv, hg, ha, hstack, hinfo, -⟩ := hstack.of_functionBody
  cases hv
  cases hg
  obtain ⟨hinfo', rfl⟩ := List.cons.inj ha
  refine ⟨?_, ?_, hfunctions' ▸ h.functions⟩
  · rw [hvars', hfunctions', hfunctions, hactive', hactive, hinfo']
    refine .functionBody hstack hinfo fun n => ?_
    rw [binder?_param]
    exact (hbound' n).of_frame rfl
  · rw [hvars']
    exact h.vars

theorem params {node : Node} {done : List Field} (params : List Field) (types : List Ty)
    (h : Situated (.functionBody node done :: around) s) (hs : AllResolved s.types)
    (hlength : types.length = params.length) (hnodup : (params.map (·.node.id)).Nodup)
    (hnew : ∀ param ∈ params,
      param.node.id ∉ surroundIds (.functionBody node done :: around)) :
    Situated (.functionBody node (done ++ params) :: around)
      ((CheckM.declareParams params types).run s).2 := by
  induction params generalizing types done s with
  | nil =>
    rw [List.append_nil]
    exact h
  | cons param params ih =>
    cases types with
    | nil => simp at hlength
    | cons ty types =>
      rw [List.map_cons, List.nodup_cons] at hnodup
      have hfirst := h.param hs (hnew param List.mem_cons_self) ty
      have hresolved : AllResolved
          ((CheckM.declareVar param.node param.name ty).run s).2.types := by
        rw [(declareVar_grows hs param.node param.name ty).2.2.2]
        exact hs
      have hcons : (CheckM.declareParams (param :: params) (ty :: types)).run s =
          (CheckM.declareParams params types).run
            ((CheckM.declareVar param.node param.name ty).run s).2 := rfl
      rw [hcons, List.append_cons]
      refine ih types hfirst hresolved (by simpa using hlength) hnodup.2 fun other hother => ?_
      have hold := hnew other (List.mem_cons_of_mem _ hother)
      have hne : other.node.id ≠ param.node.id :=
        fun heq => hnodup.1 (heq ▸ List.mem_map_of_mem hother)
      simp only [surroundIds, List.flatMap_cons, Surrounding.ids, List.map_append, List.map_cons,
        List.map_nil, List.mem_append, List.mem_cons, List.not_mem_nil, or_false, not_or] at hold ⊢
      exact ⟨⟨hold.1.1, hold.1.2, hne⟩, hold.2⟩

def loopEntered (s : Checker) (node : Node) (name : String) : Checker :=
  let entered : Checker := { s with vars := s.vars.enter }
  let reserved := ((CheckM.reserve .int >>= CheckM.noteSlot node).run entered).2
  { reserved with
    vars := reserved.vars.bind name ⟨.int, ((CheckM.reserve .int).run entered).1, true⟩ }

theorem keeps_loopEntered (hs : AllResolved s.types) (node : Node) (name : String) :
    s.Grows s.frames.frames.size s.frames.current (· = node.id) (loopEntered s node name) ∧
      (loopEntered s node name).types = s.types := by
  have hnote : Keeps (· = node.id) (CheckM.reserve .int >>= CheckM.noteSlot node) :=
    (Keeps.reserve .int).bind fun slot => .noteSlot node slot rfl
  have hkeeps := hnote { s with vars := s.vars.enter } hs
  exact ⟨hkeeps.grows.congr ⟨rfl, rfl, rfl, rfl, rfl⟩ ⟨rfl, rfl, rfl, rfl, rfl⟩, hkeeps.env.types⟩

theorem forBody (h : Situated around s) (hs : AllResolved s.types) {node : Node}
    (hnode : node.id ∉ surroundIds around) (name : String) :
    Situated (.forBody node name :: around) (loopEntered s node name) := by
  obtain ⟨hframe, f, hf, -⟩ := h.current
  set entered : Checker := { s with vars := s.vars.enter }
  have hframe' : frameOf? entered.facts around = some entered.frames.current := hframe
  have hf' : entered.frames.frames[entered.frames.current]? = some f := hf
  obtain ⟨hslot, hhas⟩ := hasSlot_reserve hframe' hf' node .int
  have hlater : Later [] (surroundIds around) s (loopEntered s node name) :=
    .of_grows (keeps_loopEntered hs node name).1 (by simp) fun id hid heq => hnode (heq ▸ hid)
  refine ⟨.forBody (h.stack.later hlater (List.Subset.refl _)) fun n => ?_, h.vars, h.functions⟩
  rw [Scope.value?_bind]
  by_cases hname : name = n
  · subst hname
    rw [Surrounding.binder?, if_pos rfl, if_pos rfl]
    exact ⟨hslot, hhas.frame, hhas.valid⟩
  · rw [Surrounding.binder?, if_neg hname, if_neg (fun heq => hname heq.symm)]
    trivial

theorem whileBody (h : Situated around s) : Situated (.whileBody :: around) s :=
  ⟨.whileBody h.stack, h.vars, h.functions⟩

theorem initial : Situated [] Checker.initial := by
  refine ⟨.nil (f := ⟨"main", 0, none, #[], false⟩) rfl rfl, rfl, rfl⟩

end Situated

end TigerLang
