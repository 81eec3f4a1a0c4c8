import TigerLang.Proofs.NodeIds
import TigerLang.Proofs.Reports

/-! What checking does to the state. Whatever is checked, the names that are known are the same
afterwards, and what has been found out before stays as it is. -/

namespace TigerLang

structure Frame.Grows (f f' : Frame) : Prop where
  name : f'.name = f.name
  level : f'.level = f.level
  parent : f'.parent = f.parent
  slots : f.slots.toList <+: f'.slots.toList

theorem Frame.Grows.refl (f : Frame) : f.Grows f := ⟨rfl, rfl, rfl, List.prefix_rfl⟩

theorem Frame.Grows.trans {f f' f'' : Frame} (h : f.Grows f') (h' : f'.Grows f'') : f.Grows f'' :=
  ⟨h'.name.trans h.name, h'.level.trans h.level, h'.parent.trans h.parent,
    h.slots.trans h'.slots⟩

structure Facts.AgreeAt (a a' : Facts) (id : Nat) : Prop where
  expTypes : a'.expTypes[id]? = a.expTypes[id]?
  varTypes : a'.varTypes[id]? = a.varTypes[id]?
  slots : a'.slots[id]? = a.slots[id]?
  varUses : a'.varUses[id]? = a.varUses[id]?
  calls : a'.calls[id]? = a.calls[id]?
  routineOf : a'.routineOf[id]? = a.routineOf[id]?

theorem Facts.AgreeAt.refl (a : Facts) (id : Nat) : a.AgreeAt a id := ⟨rfl, rfl, rfl, rfl, rfl, rfl⟩

theorem Facts.AgreeAt.trans {a a' a'' : Facts} {id : Nat} (h : a.AgreeAt a' id)
    (h' : a'.AgreeAt a'' id) : a.AgreeAt a'' id :=
  ⟨h'.expTypes.trans h.expTypes, h'.varTypes.trans h.varTypes, h'.slots.trans h.slots,
    h'.varUses.trans h.varUses, h'.calls.trans h.calls, h'.routineOf.trans h.routineOf⟩

/-- What a part of a program adds to the state when it is checked. Nothing new is known about nodes
other than those `touched`. Of the frames below `base` only the one with the number `current` has
changed, and by more slots alone. -/
structure Checker.Grows (base current : Nat) (touched : Nat → Prop) (s s' : Checker) : Prop where
  registry : s.registry.Extends s'.registry
  frames : ∀ {i f}, s.frames.frames[i]? = some f → ∃ f', s'.frames.frames[i]? = some f' ∧
    f.Grows f' ∧ (i < base → f'.finalized = f.finalized ∧ (i ≠ current → f' = f))
  functions : s.facts.functions.toList <+: s'.facts.functions.toList
  facts : ∀ {id}, ¬ touched id → s.facts.AgreeAt s'.facts id
  routines : ∀ {id info}, s'.facts.routine? id = some info →
    s.facts.routine? id = some info ∨ base ≤ info.frame
  diagnostics : s.diagnostics.toList <+: s'.diagnostics.toList
  events : s.events.toList <+: s'.events.toList

structure Checker.SameOutput (s s' : Checker) : Prop where
  registry : s'.registry = s.registry
  frames : s'.frames.frames = s.frames.frames
  facts : s'.facts = s.facts
  diagnostics : s'.diagnostics = s.diagnostics
  events : s'.events = s.events

namespace Checker.Grows
variable {base base' current current' : Nat} {touched touched' : Nat → Prop}
  {s s' s'' : Checker}

theorem refl (s : Checker) : s.Grows base current touched s where
  registry := .refl _
  frames {_ f} hf := ⟨f, hf, .refl f, fun _ => ⟨rfl, fun _ => rfl⟩⟩
  functions := List.prefix_rfl
  facts _ := .refl _ _
  routines h := .inl h
  diagnostics := List.prefix_rfl
  events := List.prefix_rfl

theorem trans (h : s.Grows base current touched s') (h' : s'.Grows base current touched s'') :
    s.Grows base current touched s'' where
  registry := h.registry.trans h'.registry
  frames {i f} hf := by
    obtain ⟨f', hf', hgrows, hkept⟩ := h.frames hf
    obtain ⟨f'', hf'', hgrows', hkept'⟩ := h'.frames hf'
    refine ⟨f'', hf'', hgrows.trans hgrows', fun hi => ⟨?_, fun hne => ?_⟩⟩
    · exact (hkept' hi).1.trans (hkept hi).1
    · exact ((hkept' hi).2 hne).trans ((hkept hi).2 hne)
  functions := h.functions.trans h'.functions
  facts hid := (h.facts hid).trans (h'.facts hid)
  routines hinfo := by
    rcases h'.routines hinfo with hold | hnew
    · exact h.routines hold
    · exact .inr hnew
  diagnostics := h.diagnostics.trans h'.diagnostics
  events := h.events.trans h'.events

/-- Less may be said about the frames, and more nodes taken for touched. A frame above the base may
be the current one or not. -/
theorem mono (h : s.Grows base current touched s') (hbase : base' ≤ base)
    (hcurrent : current' = current ∨ base' ≤ current) (htouched : ∀ id, touched id → touched' id) :
    s.Grows base' current' touched' s' where
  registry := h.registry
  frames {i f} hf := by
    obtain ⟨f', hf', hgrows, hkept⟩ := h.frames hf
    refine ⟨f', hf', hgrows, fun hi => ⟨(hkept (by omega)).1, fun hne => (hkept (by omega)).2 ?_⟩⟩
    omega
  functions := h.functions
  facts hid := h.facts fun ht => hid (htouched _ ht)
  routines hinfo := by
    rcases h.routines hinfo with hold | hnew
    · exact .inl hold
    · exact .inr (by omega)
  diagnostics := h.diagnostics
  events := h.events

theorem size_le (h : s.Grows base current touched s') :
    s.frames.frames.size ≤ s'.frames.frames.size := by
  cases hsize : s.frames.frames.size with
  | zero => omega
  | succ n =>
    obtain ⟨f', hf', -⟩ := h.frames (Array.getElem?_eq_getElem (by omega : n < _))
    obtain ⟨hlt, -⟩ := Array.getElem?_eq_some_iff.mp hf'
    omega

theorem of_same (hregistry : s.registry.Extends s'.registry)
    (hframes : s'.frames.frames = s.frames.frames) (hfacts : s'.facts = s.facts)
    (hdiagnostics : s.diagnostics.toList <+: s'.diagnostics.toList)
    (hevents : s.events.toList <+: s'.events.toList) : s.Grows base current touched s' where
  registry := hregistry
  frames {_ f} hf := ⟨f, hframes ▸ hf, .refl f, fun _ => ⟨rfl, fun _ => rfl⟩⟩
  functions := hfacts ▸ List.prefix_rfl
  facts _ := hfacts ▸ .refl _ _
  routines h := .inl (hfacts ▸ h)
  diagnostics := hdiagnostics
  events := hevents

theorem congr (h : s.Grows base current touched s') {r r' : Checker} (hr : s.SameOutput r)
    (hr' : s'.SameOutput r') : r.Grows base current touched r' := by
  have hstart : r.Grows base current touched s := of_same (hr.registry ▸ .refl _) hr.frames.symm
    hr.facts.symm (hr.diagnostics ▸ List.prefix_rfl) (hr.events ▸ List.prefix_rfl)
  have hend : s'.Grows base current touched r' := of_same (hr'.registry ▸ .refl _) hr'.frames
    hr'.facts (hr'.diagnostics ▸ List.prefix_rfl) (hr'.events ▸ List.prefix_rfl)
  exact hstart.trans (h.trans hend)

theorem of_reports (h : s.Reports s') : s.Grows base current touched s' :=
  of_same (by rw [h.same]; exact .refl _) (by rw [h.same]) (by rw [h.same]) h.diagnostics h.events

end Checker.Grows

structure Checker.SameEnv (s s' : Checker) : Prop where
  types : s'.types = s.types
  vars : s'.vars = s.vars
  functions : s'.functions = s.functions
  active : s'.frames.active = s.frames.active
  loopDepth : s'.loopDepth = s.loopDepth

namespace Checker.SameEnv
variable {s s' s'' : Checker}

theorem refl (s : Checker) : s.SameEnv s := ⟨rfl, rfl, rfl, rfl, rfl⟩

theorem trans (h : s.SameEnv s') (h' : s'.SameEnv s'') : s.SameEnv s'' :=
  ⟨h'.types.trans h.types, h'.vars.trans h.vars, h'.functions.trans h.functions,
    h'.active.trans h.active, h'.loopDepth.trans h.loopDepth⟩

theorem current (h : s.SameEnv s') : s'.frames.current = s.frames.current := by
  unfold Frames.current
  rw [h.active]

theorem of_reports (h : s.Reports s') : s.SameEnv s' := by
  rw [h.same]
  exact ⟨rfl, rfl, rfl, rfl, rfl⟩

end Checker.SameEnv

structure Checker.Keeps (touched : Nat → Prop) (s s' : Checker) : Prop where
  env : s.SameEnv s'
  grows : s.Grows s.frames.frames.size s.frames.current touched s'

namespace Checker.Keeps
variable {touched touched' : Nat → Prop} {s s' s'' : Checker}

theorem resolved (h : s.Keeps touched s') (hs : AllResolved s.types) : AllResolved s'.types :=
  h.env.types.symm ▸ hs

theorem refl (s : Checker) : s.Keeps touched s := ⟨.refl s, .refl s⟩

theorem trans (h : s.Keeps touched s') (h' : s'.Keeps touched s'') : s.Keeps touched s'' :=
  ⟨h.env.trans h'.env, h.grows.trans
    (h'.grows.mono h.grows.size_le (.inl h.env.current.symm) fun _ => id)⟩

theorem mono (h : s.Keeps touched s') (htouched : ∀ id, touched id → touched' id) :
    s.Keeps touched' s' :=
  ⟨h.env, h.grows.mono (Nat.le_refl _) (.inl rfl) htouched⟩

theorem of_reports (h : s.Reports s') : s.Keeps touched s' := ⟨.of_reports h, .of_reports h⟩

end Checker.Keeps

/-- Once all type names have been looked into, the action keeps the state as checking does. -/
def Keeps {α : Type} (touched : Nat → Prop) (x : CheckM α) : Prop :=
  ∀ s : Checker, AllResolved s.types → s.Keeps touched (x.run s).2

theorem NodeMap.getElem?_insert_of_ne {α : Type} {map : NodeMap α} {key id : Nat} (value : α)
    (h : id ≠ key) : (map.insert key value)[id]? = map[id]? := by
  rw [Std.TreeMap.getElem?_insert, if_neg]
  rw [Nat.compare_eq_eq]
  exact fun heq => h heq.symm

theorem NodeMap.getElem?_insert_self {α : Type} (map : NodeMap α) (key : Nat) (value : α) :
    (map.insert key value)[key]? = some value := by
  simp

namespace Keeps
variable {α β : Type} {touched touched' : Nat → Prop}

theorem of_onlyReports {x : CheckM α} (h : OnlyReports x) : Keeps touched x :=
  fun s hs => .of_reports (h s hs)

theorem pure (a : α) : Keeps touched (pure a : CheckM α) := fun s _ => .refl s

theorem bind {x : CheckM α} {f : α → CheckM β} (hx : Keeps touched x)
    (hf : ∀ a, Keeps touched (f a)) : Keeps touched (x >>= f) := by
  intro s hs
  have hfirst := hx s hs
  exact hfirst.trans (hf _ _ (hfirst.resolved hs))

theorem get {f : Checker → CheckM α} (hf : ∀ s, Keeps touched (f s)) :
    Keeps touched (get >>= f) :=
  fun s hs => hf s s hs

theorem mono {x : CheckM α} (hx : Keeps touched x) (htouched : ∀ id, touched id → touched' id) :
    Keeps touched' x :=
  fun s hs => (hx s hs).mono htouched

theorem learn {f : Facts → Facts}
    (hf : ∀ a : Facts, (f a).functions = a.functions ∧ (f a).routineOf = a.routineOf ∧
      ∀ id, ¬ touched id → a.AgreeAt (f a) id) : Keeps touched (CheckM.learn f) := by
  intro s _
  obtain ⟨hfunctions, hroutineOf, hfacts⟩ := hf s.facts
  refine ⟨⟨rfl, rfl, rfl, rfl, rfl⟩, ⟨.refl _, fun {i f} hf => ?_, ?_, hfacts _, ?_,
    List.prefix_rfl, List.prefix_rfl⟩⟩
  · exact ⟨f, hf, .refl f, fun _ => ⟨rfl, fun _ => rfl⟩⟩
  · exact hfunctions ▸ List.prefix_rfl
  · intro id info hinfo
    change (f s.facts).routine? id = some info at hinfo
    rw [Facts.routine?, hroutineOf, hfunctions] at hinfo
    exact .inl hinfo

theorem noteExp {node : Node} {find : CheckM Ty} (hfind : Keeps touched find)
    (hnode : touched node.id) : Keeps touched (CheckM.noteExp node find) := by
  refine hfind.bind fun ty => bind (learn fun a => ⟨rfl, rfl, fun id hid => ?_⟩) fun _ => pure _
  have hne : id ≠ node.id := fun heq => hid (heq ▸ hnode)
  exact ⟨NodeMap.getElem?_insert_of_ne ty hne, rfl, rfl, rfl, rfl, rfl⟩

theorem noteVar {node : Node} {find : CheckM Ty} (hfind : Keeps touched find)
    (hnode : touched node.id) : Keeps touched (CheckM.noteVar node find) := by
  refine hfind.bind fun ty => bind (learn fun a => ⟨rfl, rfl, fun id hid => ?_⟩) fun _ => pure _
  have hne : id ≠ node.id := fun heq => hid (heq ▸ hnode)
  exact ⟨rfl, NodeMap.getElem?_insert_of_ne ty hne, rfl, rfl, rfl, rfl⟩

theorem noteSlot (node : Node) (slot : Slot) (hnode : touched node.id) :
    Keeps touched (CheckM.noteSlot node slot) := by
  refine learn fun a => ⟨rfl, rfl, fun id hid => ?_⟩
  have hne : id ≠ node.id := fun heq => hid (heq ▸ hnode)
  exact ⟨rfl, rfl, NodeMap.getElem?_insert_of_ne slot hne, rfl, rfl, rfl⟩

theorem typeOfSimple {node : Node} (name : String) (hnode : touched node.id) :
    Keeps touched (CheckM.typeOfSimple node name) := by
  unfold CheckM.typeOfSimple
  refine get fun s => ?_
  split
  · exact of_onlyReports (.report_then _ _ (.pure _))
  · refine bind (learn fun a => ⟨rfl, rfl, fun id hid => ?_⟩) fun _ => pure _
    have hne : id ≠ node.id := fun heq => hid (heq ▸ hnode)
    exact ⟨rfl, rfl, rfl, NodeMap.getElem?_insert_of_ne _ hne, rfl, rfl⟩

theorem typeOfCall {node : Node} (function : String) (args : List (Ty × Position))
    (hnode : touched node.id) : Keeps touched (CheckM.typeOfCall node function args) := by
  unfold CheckM.typeOfCall
  refine get fun s => ?_
  split
  · exact of_onlyReports (.report_then _ _ (.pure _))
  · refine bind (learn fun a => ⟨rfl, rfl, fun id hid => ?_⟩) fun _ => of_onlyReports ?_
    · have hne : id ≠ node.id := fun heq => hid (heq ▸ hnode)
      exact ⟨rfl, rfl, rfl, rfl, NodeMap.getElem?_insert_of_ne _ hne, rfl⟩
    · split
      · exact .report_then _ _ ((CheckM.checkArgs_onlyReports _ _).bind fun _ => .pure _)
      · exact (CheckM.checkArgs_onlyReports _ _).bind fun _ => .pure _

theorem reserve (ty : Ty) : Keeps touched (CheckM.reserve ty) := by
  intro s _
  refine ⟨⟨rfl, rfl, rfl, rfl, rfl⟩, ⟨.refl _, fun {i f} hf => ?_, List.prefix_rfl,
    fun _ => .refl _ _, .inl, List.prefix_rfl, List.prefix_rfl⟩⟩
  change ∃ f', (s.frames.frames.modify s.frames.current
    fun f => { f with slots := f.slots.push ty })[i]? = some f' ∧ _
  rw [Array.getElem?_modify, hf]
  split
  · next heq =>
    refine ⟨_, rfl, ⟨rfl, rfl, rfl, by simp⟩, fun _ => ⟨rfl, fun hne => absurd heq.symm hne⟩⟩
  · exact ⟨f, rfl, .refl f, fun _ => ⟨rfl, fun _ => rfl⟩⟩

theorem inLoop {x : CheckM α} (hx : Keeps touched x) : Keeps touched (CheckM.inLoop x) := by
  intro s hs
  have h := hx { s with loopDepth := s.loopDepth + 1 } hs
  refine ⟨⟨h.env.types, h.env.vars, h.env.functions, h.env.active, ?_⟩,
    h.grows.congr ⟨rfl, rfl, rfl, rfl, rfl⟩ ⟨rfl, rfl, rfl, rfl, rfl⟩⟩
  exact Nat.sub_eq_of_eq_add h.env.loopDepth

theorem withLoopVar {node : Node} (name : String) {x : CheckM α} (hx : Keeps touched x)
    (hnode : touched node.id) : Keeps touched (CheckM.withLoopVar node name x) := by
  intro s hs
  set entered : Checker := { s with vars := s.vars.enter }
  have hslot := (reserve .int).bind (fun slot => noteSlot node slot hnode) entered hs
  set s₁ := ((CheckM.reserve .int >>= CheckM.noteSlot node).run entered).2
  set slot := ((CheckM.reserve .int).run entered).1
  set bound : Checker := { s₁ with vars := s₁.vars.bind name ⟨.int, slot, true⟩ }
  have hx' := hx bound (hslot.resolved hs)
  set s₂ := (x.run bound).2
  change s.Keeps touched { s₂ with vars := s₂.vars.leave }
  have hvars : s₂.vars.leave = s.vars := by
    rw [hx'.env.vars]
    change (s₁.vars.bind _ _).leave = s.vars
    rw [hslot.env.vars]
    rfl
  refine ⟨⟨hx'.env.types.trans hslot.env.types, hvars, hx'.env.functions.trans hslot.env.functions,
    hx'.env.active.trans hslot.env.active, hx'.env.loopDepth.trans hslot.env.loopDepth⟩, ?_⟩
  have hbound : s.Grows s.frames.frames.size s.frames.current touched bound :=
    hslot.grows.congr ⟨rfl, rfl, rfl, rfl, rfl⟩ ⟨rfl, rfl, rfl, rfl, rfl⟩
  have hcurrent : s.frames.current = bound.frames.current := hslot.env.current.symm
  exact hbound.trans ((hx'.grows.mono hbound.size_le (.inl hcurrent) fun _ => id).congr
    ⟨rfl, rfl, rfl, rfl, rfl⟩ ⟨rfl, rfl, rfl, rfl, rfl⟩)

end Keeps

structure Checker.Inside (outer s : Checker) : Prop where
  types : ∃ scope, s.types = outer.types.within scope
  vars : ∃ scope, s.vars = outer.vars.within scope
  functions : ∃ scope, s.functions = outer.functions.within scope
  active : s.frames.active = outer.frames.active
  loopDepth : s.loopDepth = outer.loopDepth
  resolved : AllResolved s.types

structure Checker.Works (outer : Checker) (base : Nat) (touched : Nat → Prop) (s s' : Checker) :
    Prop where
  inside : outer.Inside s'
  grows : s.Grows base outer.frames.current touched s'

namespace Checker.Inside
variable {outer s s' : Checker} {base : Nat} {touched : Nat → Prop}

theorem current (h : outer.Inside s) : s.frames.current = outer.frames.current := by
  unfold Frames.current
  rw [h.active]

theorem of_sameEnv (h : outer.Inside s) (henv : s.SameEnv s') : outer.Inside s' where
  types := henv.types ▸ h.types
  vars := henv.vars ▸ h.vars
  functions := henv.functions ▸ h.functions
  active := henv.active.trans h.active
  loopDepth := henv.loopDepth.trans h.loopDepth
  resolved := henv.types ▸ h.resolved

theorem works_of_keeps (h : outer.Inside s) (hbase : base ≤ s.frames.frames.size)
    (hkeeps : s.Keeps touched s') : outer.Works base touched s s' :=
  ⟨h.of_sameEnv hkeeps.env, hkeeps.grows.mono hbase (.inl h.current.symm) fun _ => id⟩

end Checker.Inside

theorem Checker.Works.trans {outer s s' s'' : Checker} {base : Nat} {touched : Nat → Prop}
    (h : outer.Works base touched s s') (h' : outer.Works base touched s' s'') :
    outer.Works base touched s s'' :=
  ⟨h'.inside, h.grows.trans h'.grows⟩

theorem Checker.Works.mono {outer s s' : Checker} {base : Nat} {touched touched' : Nat → Prop}
    (h : outer.Works base touched s s') (htouched : ∀ id, touched id → touched' id) :
    outer.Works base touched' s s' :=
  ⟨h.inside, h.grows.mono (Nat.le_refl _) (.inl rfl) htouched⟩

def Checker.entered (s : Checker) : Checker :=
  { s with
    types := s.types.within []
    vars := s.vars.within []
    functions := s.functions.within []
    events := s.events.push (.enteredScope (s.vars.within []).depth) }

def Checker.left (s : Checker) : Checker :=
  { s with types := s.types.leave, vars := s.vars.leave, functions := s.functions.leave }

theorem CheckM.inScope_run {α : Type} (x : CheckM α) (s : Checker) :
    (inScope x).run s = ((x.run s.entered).1, (x.run s.entered).2.left) := rfl

theorem Checker.inside_entered {s : Checker} (hs : AllResolved s.types) : s.Inside s.entered :=
  ⟨⟨[], rfl⟩, ⟨[], rfl⟩, ⟨[], rfl⟩, rfl, rfl, hs.within (by simp)⟩

theorem Checker.sameEnv_left {s s' : Checker} (h : s.Inside s') : s.SameEnv s'.left := by
  obtain ⟨⟨_, htypes⟩, ⟨_, hvars⟩, ⟨_, hfunctions⟩, hactive, hdepth, -⟩ := h
  refine ⟨?_, ?_, ?_, hactive, hdepth⟩
  · change s'.types.leave = s.types
    rw [htypes, Scopes.leave_within]
  · change s'.vars.leave = s.vars
    rw [hvars, Scopes.leave_within]
  · change s'.functions.leave = s.functions
    rw [hfunctions, Scopes.leave_within]

theorem Checker.Works.inScope {α : Type} {x : CheckM α} {s : Checker} {base : Nat}
    {touched : Nat → Prop} (h : s.Works base touched s.entered (x.run s.entered).2) :
    s.SameEnv ((CheckM.inScope x).run s).2 ∧
      s.Grows base s.frames.current touched ((CheckM.inScope x).run s).2 := by
  have hentered : s.Grows base s.frames.current touched s.entered :=
    .of_same (.refl _) rfl rfl List.prefix_rfl (by simp [Checker.entered])
  have hleft : s.entered.Grows base s.frames.current touched (x.run s.entered).2.left :=
    h.grows.congr ⟨rfl, rfl, rfl, rfl, rfl⟩ ⟨rfl, rfl, rfl, rfl, rfl⟩
  exact ⟨sameEnv_left h.inside, hentered.trans hleft⟩

def Checker.newRoutine (s : Checker) (node : Node) (name : String) (params : List Ty)
    (result : Ty) : Routine :=
  ⟨name, name ++ "." ++ node.id.repr, s.frames.frames.size, s.frames.level + 1, params, result⟩

def Checker.withFunction (s : Checker) (node : Node) (name : String) (params : List Ty)
    (result : Ty) : Checker :=
  { s with
    frames := (s.frames.declare (name ++ "." ++ node.id.repr)).2
    facts := { s.facts with
      functions := s.facts.functions.push (s.newRoutine node name params result)
      routineOf := s.facts.routineOf.insert node.id s.facts.functions.size }
    events := s.events.push (.declaredFunction name (name ++ "." ++ node.id.repr)) }

def Checker.bindFunction (s : Checker) (name : String) (entry : FunBinding) : Checker :=
  { s with functions := s.functions.bind name entry }

theorem Checker.routine?_withFunction (s : Checker) (node : Node) (name : String)
    (params : List Ty) (result : Ty) (id : Nat) :
    (s.withFunction node name params result).facts.routine? id =
      if id = node.id then some (s.newRoutine node name params result)
      else s.facts.routineOf[id]?.bind fun k =>
        if k = s.facts.functions.size then some (s.newRoutine node name params result)
        else s.facts.functions[k]? := by
  change (s.facts.routineOf.insert node.id s.facts.functions.size)[id]?.bind
    (fun k => (s.facts.functions.push (s.newRoutine node name params result))[k]?) = _
  split
  · next heq =>
    subst heq
    rw [NodeMap.getElem?_insert_self, Option.bind_some, Array.getElem?_push_size]
  · next hne =>
    rw [NodeMap.getElem?_insert_of_ne _ hne]
    simp only [Array.getElem?_push]

theorem Checker.grows_withFunction {s : Checker} {base current : Nat} {touched : Nat → Prop}
    (hbase : base ≤ s.frames.frames.size) {node : Node} (hnode : touched node.id) (name : String)
    (params : List Ty) (result : Ty) :
    s.Grows base current touched (s.withFunction node name params result) := by
  refine ⟨.refl _, fun {i f} hf => ?_, ?_, fun {id} hid => ?_, fun {id info} hinfo => ?_,
    List.prefix_rfl, ?_⟩
  · refine ⟨f, ?_, .refl f, fun _ => ⟨rfl, fun _ => rfl⟩⟩
    obtain ⟨hlt, -⟩ := Array.getElem?_eq_some_iff.mp hf
    change (s.frames.frames.push _)[i]? = some f
    rw [Array.getElem?_push_lt hlt, ← hf, Array.getElem?_eq_getElem hlt]
  · simp [withFunction]
  · have hne : id ≠ node.id := fun heq => hid (heq ▸ hnode)
    exact ⟨rfl, rfl, rfl, rfl, rfl, NodeMap.getElem?_insert_of_ne _ hne⟩
  · rw [routine?_withFunction] at hinfo
    split at hinfo
    · exact .inr (Option.some.inj hinfo ▸ hbase)
    · obtain ⟨k, hk, hinfo⟩ := Option.bind_eq_some_iff.mp hinfo
      split at hinfo
      · exact .inr (Option.some.inj hinfo ▸ hbase)
      · exact .inl (Option.bind_eq_some_iff.mpr ⟨k, hk, hinfo⟩)
  · simp [withFunction]

namespace CheckM

def resultType (node : Node) : Option String → CheckM Ty
  | some result => typeNamed result node.span.start
  | none => pure .void

def enterFunction (node : Node) (name : String) (params : List Ty) (result : Ty) :
    CheckM Unit := do
  let id ← addFunction node name (name ++ "." ++ node.id.repr) params result
  tell (.declaredFunction name (name ++ "." ++ node.id.repr))
  if (← get).functions.hasHere name then
    report (.redefinition .function name) node.span.start
  else
    modify fun s => { s with functions := s.functions.bind name ⟨params, result, .user id⟩ }

theorem declareHeading_eq (node : Node) (name : String) (params : List Field)
    (result : Option String) : declareHeading node name params result =
      paramTypes params >>= fun types => resultType node result >>= enterFunction node name types := by
  cases result <;> rfl

theorem resultType_onlyReports (node : Node) (result : Option String) :
    OnlyReports (resultType node result) := by
  cases result with
  | none => exact .pure _
  | some result => exact typeNamed_onlyReports _ _

def resultIn (types : Scopes TypeBinding) : Option String → Ty
  | some result => typeIn types result
  | none => .void

theorem resultType_resolved {s : Checker} (hs : AllResolved s.types) (node : Node)
    (result : Option String) : ((resultType node result).run s).1 = resultIn s.types result := by
  cases result with
  | none => rfl
  | some result =>
    rw [resultType, typeNamed_resolved hs]
    rfl

theorem declareHeading_run {s : Checker} (hs : AllResolved s.types) (node : Node) (name : String)
    (params : List Field) (result : Option String) :
    ∃ s₁, s.Reports s₁ ∧ (declareHeading node name params result).run s =
      (enterFunction node name (params.map fun param => typeIn s.types param.typeName)
        (resultIn s.types result)).run s₁ := by
  have hparams := paramTypes_onlyReports params s hs
  have hs₁ : AllResolved ((paramTypes params).run s).2.types := hparams.types.symm ▸ hs
  have hresult := resultType_onlyReports node result _ hs₁
  refine ⟨_, hparams.trans hresult, ?_⟩
  rw [declareHeading_eq, run_bind, run_bind, paramTypes_resolved hs, resultType_resolved hs₁,
    hparams.types]

theorem enterFunction_run (node : Node) (name : String) (params : List Ty) (result : Ty)
    (s : Checker) : (enterFunction node name params result).run s = ((),
      if s.functions.hasHere name then
        ((report (.redefinition .function name) node.span.start).run
          (s.withFunction node name params result)).2
      else (s.withFunction node name params result).bindFunction name
        ⟨params, result, .user s.facts.functions.size⟩) := by
  have hrun : (enterFunction node name params result).run s =
      (if s.functions.hasHere name then report (.redefinition .function name) node.span.start
        else modify fun s' =>
          s'.bindFunction name ⟨params, result, .user s.facts.functions.size⟩).run
        (s.withFunction node name params result) := rfl
  rw [hrun]
  split <;> rfl

theorem enterFunction_works {outer s : Checker} {base : Nat} {touched : Nat → Prop}
    (h : outer.Inside s) (hbase : base ≤ s.frames.frames.size) {node : Node}
    (hnode : touched node.id) (name : String) (params : List Ty) (result : Ty) :
    outer.Works base touched s ((enterFunction node name params result).run s).2 := by
  have hgrows : s.Grows base outer.frames.current touched (s.withFunction node name params result) :=
    Checker.grows_withFunction hbase hnode name params result
  have hinside : outer.Inside (s.withFunction node name params result) :=
    ⟨h.types, h.vars, h.functions, h.active, h.loopDepth, h.resolved⟩
  rw [enterFunction_run]
  split
  · have hreport := Checker.Reports.report (s.withFunction node name params result)
      (.redefinition .function name) node.span.start
    exact ⟨hinside.of_sameEnv (.of_reports hreport), hgrows.trans (.of_reports hreport)⟩
  · exact ⟨⟨h.types, h.vars, Scopes.exists_bind_within h.functions _ _, h.active, h.loopDepth,
      h.resolved⟩, hgrows.congr ⟨rfl, rfl, rfl, rfl, rfl⟩ ⟨rfl, rfl, rfl, rfl, rfl⟩⟩

theorem declareHeading_works {outer s : Checker} {base : Nat} {touched : Nat → Prop}
    (h : outer.Inside s) (hbase : base ≤ s.frames.frames.size) {node : Node}
    (hnode : touched node.id) (name : String) (params : List Field) (result : Option String) :
    outer.Works base touched s ((declareHeading node name params result).run s).2 := by
  obtain ⟨s₁, hreports, hrun⟩ := declareHeading_run h.resolved node name params result
  have htypes : outer.Works base touched s s₁ := h.works_of_keeps hbase (.of_reports hreports)
  rw [hrun]
  exact htypes.trans (enterFunction_works htypes.inside (hbase.trans htypes.grows.size_le) hnode
    name _ _)

theorem enterFunction_output (node : Node) (name : String) (params : List Ty) (result : Ty)
    (s : Checker) :
    ((enterFunction node name params result).run s).2.facts =
        (s.withFunction node name params result).facts ∧
      ((enterFunction node name params result).run s).2.frames =
        (s.withFunction node name params result).frames := by
  rw [enterFunction_run]
  split <;> exact ⟨rfl, rfl⟩

theorem enterFunction_types (node : Node) (name : String) (params : List Ty) (result : Ty)
    (s : Checker) : ((enterFunction node name params result).run s).2.types = s.types := by
  rw [enterFunction_run]
  split <;> rfl

theorem routine?_enterFunction (node : Node) (name : String) (params : List Ty) (result : Ty)
    (s : Checker) : ((enterFunction node name params result).run s).2.facts.routine? node.id =
      some (s.newRoutine node name params result) := by
  rw [(enterFunction_output node name params result s).1, Checker.routine?_withFunction, if_pos rfl]

theorem declareHeadings_works {outer s : Checker} {base : Nat} {touched : Nat → Prop}
    (decs : List Dec) (h : outer.Inside s) (hbase : base ≤ s.frames.frames.size)
    (hdecs : ∀ id ∈ functionIds decs, touched id) :
    outer.Works base touched s ((declareHeadings decs).run s).2 := by
  induction decs generalizing s with
  | nil => exact ⟨h, .refl s⟩
  | cons d decs ih =>
    cases d with
    | var node name typeName init => exact ih h hbase hdecs
    | type node name definition => exact ih h hbase hdecs
    | function node name params result body =>
      rw [functionIds_function] at hdecs
      have hhead := declareHeading_works h hbase (hdecs node.id List.mem_cons_self) name params
        result
      exact hhead.trans (ih hhead.inside (hbase.trans hhead.grows.size_le) fun id hid =>
        hdecs id (List.mem_cons_of_mem _ hid))

end CheckM

def FramesFrom (base : Nat) (decs : List Dec) (s : Checker) : Prop :=
  ∀ d ∈ decs, d.isFunction → ∀ info, s.facts.routine? d.node.id = some info → base ≤ info.frame

theorem FramesFrom.head {base : Nat} {d : Dec} {decs : List Dec} {s : Checker}
    (h : FramesFrom base (d :: decs) s) : FramesFrom base [d] s :=
  fun other hother => h other (List.mem_cons.mpr (.inl (List.mem_singleton.mp hother)))

theorem FramesFrom.tail {base : Nat} {d : Dec} {decs : List Dec} {s : Checker}
    (h : FramesFrom base (d :: decs) s) : FramesFrom base decs s :=
  fun other hother => h other (List.mem_cons_of_mem _ hother)

theorem FramesFrom.grows {base current : Nat} {touched : Nat → Prop} {decs : List Dec}
    {s s' : Checker} (h : FramesFrom base decs s) (hgrows : s.Grows base current touched s') :
    FramesFrom base decs s' := by
  intro d hd hfunction info hinfo
  rcases hgrows.routines hinfo with hold | hnew
  · exact h d hd hfunction info hold
  · exact hnew

theorem CheckM.declareHeadings_framesFrom {outer s : Checker} {base : Nat} (decs : List Dec)
    (h : outer.Inside s) (hbase : base ≤ s.frames.frames.size) :
    FramesFrom base decs ((declareHeadings decs).run s).2 := by
  induction decs generalizing s with
  | nil => simp [FramesFrom]
  | cons d decs ih =>
    cases d with
    | var node name typeName init =>
      intro d hd hfunction
      rcases List.mem_cons.mp hd with rfl | hd
      · simp [Dec.isFunction] at hfunction
      · exact ih h hbase d hd hfunction
    | type node name definition =>
      intro d hd hfunction
      rcases List.mem_cons.mp hd with rfl | hd
      · simp [Dec.isFunction] at hfunction
      · exact ih h hbase d hd hfunction
    | function node name params result body =>
      have hhead : outer.Works base (fun _ => True) s
          ((declareHeading node name params result).run s).2 :=
        declareHeading_works h hbase trivial name params result
      have hrest : outer.Works base (fun _ => True) ((declareHeading node name params result).run s).2
          ((declareHeadings decs).run ((declareHeading node name params result).run s).2).2 :=
        declareHeadings_works decs hhead.inside (hbase.trans hhead.grows.size_le) fun _ _ => trivial
      intro d hd hfunction info hinfo
      rcases List.mem_cons.mp hd with rfl | hd
      · rcases hrest.grows.routines hinfo with hold | hnew
        · obtain ⟨s₁, hreports, hrun⟩ := declareHeading_run h.resolved node name params result
          have hroutine := routine?_enterFunction node name
            (params.map fun param => typeIn s.types param.typeName) (resultIn s.types result) s₁
          rw [← hrun] at hroutine
          obtain rfl := Option.some.inj (hroutine.symm.trans hold)
          change base ≤ s₁.frames.frames.size
          rwa [hreports.same]
        · exact hnew
      · exact ih hhead.inside (hbase.trans hhead.grows.size_le) d hd hfunction info hinfo

namespace CheckM

theorem declareTypes_works {s : Checker} {touched : Nat → Prop} (hs : AllResolved s.types)
    (decs : List Dec) : s.Works s.frames.frames.size touched s.entered
      ((declareTypes decs >>= resolveTypes).run s.entered).2 := by
  obtain ⟨scope, hsettled⟩ := declareTypes_resolveTypes hs (s := s.entered) rfl decs
  have helsewhere := hsettled.resolving.elsewhere
  constructor
  · refine ⟨⟨scope, hsettled.resolving.types⟩, ⟨[], helsewhere.vars⟩, ⟨[], helsewhere.functions⟩,
      congrArg Frames.active helsewhere.frames, helsewhere.loopDepth, ?_⟩
    rw [hsettled.resolving.types]
    exact hs.within hsettled.settled
  · exact .of_same hsettled.resolving.sound.extends_ (congrArg Frames.frames helsewhere.frames)
      helsewhere.facts hsettled.resolving.diagnostics hsettled.resolving.events

theorem declareBlock_works {s : Checker} {touched : Nat → Prop} (hs : AllResolved s.types)
    (decs : List Dec) (hdecs : ∀ id ∈ functionIds decs, touched id) :
    s.Works s.frames.frames.size touched s.entered ((declareBlock decs).run s.entered).2 ∧
      FramesFrom s.frames.frames.size decs ((declareBlock decs).run s.entered).2 := by
  have htypes : s.Works s.frames.frames.size touched s.entered
      ((declareTypes decs >>= resolveTypes).run s.entered).2 := declareTypes_works hs decs
  have hheadings := declareHeadings_works decs htypes.inside htypes.grows.size_le hdecs
  exact ⟨⟨hheadings.inside, htypes.grows.trans hheadings.grows⟩,
    declareHeadings_framesFrom decs htypes.inside htypes.grows.size_le⟩

theorem defineVar_run (name : String) (entry : VarBinding) (position : Position) (s : Checker) :
    (defineVar name entry position).run s = ((),
      if s.vars.hasHere name then ((report (.redefinition .variable name) position).run s).2
      else { s with vars := s.vars.bind name entry }) := by
  rw [defineVar, run_get_bind]
  split <;> rfl

theorem defineVar_works {outer s : Checker} {base : Nat} {touched : Nat → Prop}
    (h : outer.Inside s) (name : String) (entry : VarBinding) (position : Position) :
    outer.Works base touched s ((defineVar name entry position).run s).2 := by
  rw [defineVar_run]
  split
  · have hreport := Checker.Reports.report s (.redefinition .variable name) position
    exact ⟨h.of_sameEnv (.of_reports hreport), .of_reports hreport⟩
  · exact ⟨⟨h.types, Scopes.exists_bind_within h.vars _ _, h.functions, h.active, h.loopDepth,
      h.resolved⟩, .of_same (.refl _) rfl rfl List.prefix_rfl List.prefix_rfl⟩

theorem declareVar_works {outer s : Checker} {base : Nat} {touched : Nat → Prop}
    (h : outer.Inside s) (hbase : base ≤ s.frames.frames.size) (node : Node)
    (hnode : touched node.id) (name : String) (ty : Ty) :
    outer.Works base touched s ((declareVar node name ty).run s).2 := by
  have hslot := h.works_of_keeps hbase
    ((Keeps.reserve ty).bind (fun slot => .noteSlot node slot hnode) s h.resolved)
  exact hslot.trans (defineVar_works hslot.inside name _ _)

theorem declareParams_works {outer s : Checker} {base : Nat} {touched : Nat → Prop}
    (params : List Field) (types : List Ty) (h : outer.Inside s)
    (hbase : base ≤ s.frames.frames.size) (hparams : ∀ param ∈ params, touched param.node.id) :
    outer.Works base touched s ((declareParams params types).run s).2 := by
  induction params generalizing types s with
  | nil => exact ⟨h, .refl s⟩
  | cons param params ih =>
    cases types with
    | nil => exact ⟨h, .refl s⟩
    | cons ty types =>
      have hfirst := declareVar_works h hbase param.node (hparams param List.mem_cons_self)
        param.name ty
      exact hfirst.trans (ih types hfirst.inside (hbase.trans hfirst.grows.size_le) fun other hother =>
        hparams other (List.mem_cons_of_mem _ hother))

theorem grows_finalize {s : Checker} {base current frame : Nat} {touched : Nat → Prop}
    (hframe : base ≤ frame) (depth : Nat) (active : List Nat) :
    s.Grows base current touched { s with
      frames := Frames.finalize { s.frames with active } frame, loopDepth := depth } := by
  refine ⟨.refl _, fun {i f} hf => ?_, List.prefix_rfl, fun _ => .refl _ _, .inl, List.prefix_rfl,
    List.prefix_rfl⟩
  change ∃ f', (s.frames.frames.modify frame fun f => { f with finalized := true })[i]? = some f' ∧ _
  rw [Array.getElem?_modify, hf]
  split
  · next heq =>
    exact ⟨_, rfl, ⟨rfl, rfl, rfl, List.prefix_rfl⟩, fun hi => absurd hi (by omega)⟩
  · exact ⟨f, rfl, .refl f, fun _ => ⟨rfl, fun _ => rfl⟩⟩

theorem inFunction_reports (frame : Nat) (x : CheckM Unit) (s : Checker) :
    let s₁ := (x.run { s with frames := s.frames.enter frame, loopDepth := 0 }).2
    let s₂ : Checker := { s₁ with frames := s₁.frames.leave, loopDepth := s.loopDepth }
    s₂.Reports ((inFunction frame x).run s).2 ∧
      ((inFunction frame x).run s).2.diagnostics = s₁.diagnostics := by
  intro s₁ s₂
  unfold inFunction
  rw [run_get_bind, run_bind, run_bind, run_bind, run_get_bind]
  split
  · exact ⟨.tell s₂ _, rfl⟩
  · exact ⟨.refl s₂, rfl⟩

theorem inFunction_keeps {s : Checker} {base current frame : Nat} {touched : Nat → Prop}
    {x : CheckM Unit} (hs : AllResolved s.types) (hframe : base ≤ frame)
    (hbase : base ≤ s.frames.frames.size)
    (hx : ∀ s₁ : Checker, AllResolved s₁.types → base ≤ s₁.frames.frames.size →
      s₁.SameEnv (x.run s₁).2 ∧ s₁.Grows base s₁.frames.current touched (x.run s₁).2) :
    s.SameEnv ((inFunction frame x).run s).2 ∧
      s.Grows base current touched ((inFunction frame x).run s).2 := by
  set entered : Checker := { s with frames := s.frames.enter frame, loopDepth := 0 }
  obtain ⟨henv, hgrows⟩ := hx entered hs hbase
  set s₁ := (x.run entered).2
  have hactive : s₁.frames.active = frame :: s.frames.active := henv.active
  have hleave : s₁.frames.leave =
      Frames.finalize { s₁.frames with active := s.frames.active } frame := by
    unfold Frames.leave
    rw [hactive]
  set s₂ : Checker := { s₁ with frames := s₁.frames.leave, loopDepth := s.loopDepth }
  have henv₂ : s.SameEnv s₂ := by
    refine ⟨henv.types, henv.vars, henv.functions, ?_, rfl⟩
    change s₁.frames.leave.active = _
    rw [hleave]
    rfl
  have hend : s.Grows base current touched s₂ := by
    have hbody : s.Grows base current touched s₁ :=
      (hgrows.mono (Nat.le_refl _) (.inr hframe) fun _ => id).congr ⟨rfl, rfl, rfl, rfl, rfl⟩
        ⟨rfl, rfl, rfl, rfl, rfl⟩
    refine hbody.trans ?_
    change s₁.Grows base _ touched { s₁ with frames := s₁.frames.leave, loopDepth := s.loopDepth }
    rw [hleave]
    exact grows_finalize hframe _ _
  obtain ⟨hreports, -⟩ := inFunction_reports frame x s
  exact ⟨henv₂.trans (.of_reports hreports), hend.trans (.of_reports hreports)⟩

theorem functionBody_keeps {s : Checker} {base : Nat} {touched : Nat → Prop} {params : List Field}
    {types : List Ty} {body : Exp} {expected : Ty} (hs : AllResolved s.types)
    (hbase : base ≤ s.frames.frames.size) (hparams : ∀ param ∈ params, touched param.node.id)
    (hbody : Keeps touched (inferExp body)) :
    let x : CheckM Unit := inScope do
      declareParams params types
      let bodyType ← inferExp body
      discard (require expected bodyType body.start)
    s.SameEnv (x.run s).2 ∧ s.Grows base s.frames.current touched (x.run s).2 := by
  refine Checker.Works.inScope ?_
  have hdeclared := declareParams_works params types (Checker.inside_entered hs) hbase hparams
  have hrest : Keeps touched (inferExp body >>= fun bodyType =>
      discard (require expected bodyType body.start)) :=
    hbody.bind fun bodyType => .of_onlyReports (OnlyReports.require _ _ _).discard
  exact hdeclared.trans (hdeclared.inside.works_of_keeps (hbase.trans hdeclared.grows.size_le)
    (hrest _ hdeclared.inside.resolved))

def checkFunction (id : Nat) (params : List Field) (result : Option String) (body : Exp) :
    CheckM Unit := do
  match (← get).facts.routine? id with
  | none => pure ()
  | some info => inFunction info.frame do
      inScope do
        declareParams params info.params
        let bodyType ← inferExp body
        let expected := if result.isSome then info.result else .void
        discard (require expected bodyType body.start)

theorem checkFunction_keeps {s : Checker} {base current id : Nat} {touched : Nat → Prop}
    {params : List Field} {body : Exp} (result : Option String) (hs : AllResolved s.types)
    (hbase : base ≤ s.frames.frames.size)
    (hframe : ∀ info, s.facts.routine? id = some info → base ≤ info.frame)
    (hparams : ∀ param ∈ params, touched param.node.id) (hbody : Keeps touched (inferExp body)) :
    s.SameEnv ((checkFunction id params result body).run s).2 ∧
      s.Grows base current touched ((checkFunction id params result body).run s).2 := by
  rw [checkFunction, run_get_bind]
  split
  · exact ⟨.refl s, .refl s⟩
  · next info hinfo =>
    exact inFunction_keeps hs (hframe info hinfo) hbase fun s₁ hs₁ hbase₁ =>
      functionBody_keeps hs₁ hbase₁ hparams hbody

theorem checkBodies_function (node : Node) (name : String) (params : List Field)
    (result : Option String) (body : Exp) (decs : List Dec) (s : Checker) :
    (checkBodies (.function node name params result body :: decs)).run s =
      (checkBodies decs).run ((checkFunction node.id params result body).run s).2 := by
  rw [checkBodies, checkFunction, run_get_bind, run_get_bind]
  cases s.facts.routine? node.id with
  | none => rfl
  | some info => rfl

theorem block_keeps {α : Type} {decs : List Dec} {ids : List Nat} {x : CheckM α}
    (hbodies : ∀ {outer s base}, Checker.Inside outer s → base ≤ s.frames.frames.size →
      FramesFrom base decs s → outer.Works base (· ∈ Dec.innerIds decs) s ((checkBodies decs).run s).2)
    (hx : Keeps (· ∈ ids) x) :
    Keeps (· ∈ Dec.idsList decs ++ ids) (inScope do declareBlock decs; checkBodies decs; x) := by
  intro s hs
  obtain ⟨hblock, hframes⟩ := declareBlock_works hs decs fun id hid => hid
  have hdecs : s.Works s.frames.frames.size (· ∈ Dec.idsList decs ++ ids) s.entered
      ((declareBlock decs >>= fun _ => checkBodies decs).run s.entered).2 :=
    (hblock.mono fun _ h => List.mem_append_left _ (Dec.functionIds_subset decs h)).trans
      ((hbodies hblock.inside hblock.grows.size_le hframes).mono fun _ h =>
        List.mem_append_left _ (Dec.innerIds_subset decs h))
  have hwork := hdecs.trans (hdecs.inside.works_of_keeps hdecs.grows.size_le
    (hx.mono (fun _ h => List.mem_append_right _ h) _ hdecs.inside.resolved))
  obtain ⟨henv, hgrows⟩ := Checker.Works.inScope (x := do declareBlock decs; checkBodies decs; x) hwork
  exact ⟨henv, hgrows⟩

mutual

theorem inferExp_keeps : ∀ e : Exp, Keeps (· ∈ e.ids) (inferExp e)
  | .nil node => .noteExp (.pure _) (by simp [Exp.ids])
  | .int node _ => .noteExp (.pure _) (by simp [Exp.ids])
  | .str node _ => .noteExp (.pure _) (by simp [Exp.ids])
  | .var node target =>
    .noteExp ((inferVar_keeps target).mono fun _ h => by simp [Exp.ids, h]) (by simp [Exp.ids])
  | .call node function args =>
    .noteExp (((inferExps_keeps args).mono fun _ h => by simp [Exp.ids, h]).bind fun types =>
      .typeOfCall function types (by simp [Exp.ids])) (by simp [Exp.ids])
  | .binary node op left right =>
    .noteExp (((inferExp_keeps left).mono fun _ h => by simp [Exp.ids, h]).bind fun leftType =>
      ((inferExp_keeps right).mono fun _ h => by simp [Exp.ids, h]).bind fun rightType =>
      .of_onlyReports (typeOfBinary_onlyReports op leftType rightType right.start))
      (by simp [Exp.ids])
  | .record node typeName fields =>
    .noteExp ((Keeps.of_onlyReports (typeNamed_onlyReports typeName node.span.start)).bind fun ty =>
      ((inferGiven_keeps fields).mono fun _ h => by simp [Exp.ids, h]).bind fun given =>
      .of_onlyReports (typeOfRecord_onlyReports ty typeName given node.span.start))
      (by simp [Exp.ids])
  | .seq node exps =>
    .noteExp (((inferExps_keeps exps).mono fun _ h => by simp [Exp.ids, h]).bind fun _ => .pure _)
      (by simp [Exp.ids])
  | .assign node target value =>
    .noteExp (((inferVar_keeps target).mono fun _ h => by simp [Exp.ids, h]).bind fun targetType =>
      ((inferExp_keeps value).mono fun _ h => by simp [Exp.ids, h]).bind fun valueType =>
      .of_onlyReports ((checkAssignable_onlyReports target).bind fun _ =>
        .require_then _ _ _ (.pure _))) (by simp [Exp.ids])
  | .ifThen node test body =>
    .noteExp (((inferExp_keeps test).mono fun _ h => by simp [Exp.ids, h]).bind fun _ =>
      (Keeps.of_onlyReports (OnlyReports.require _ _ _).discard).bind fun _ =>
      ((inferExp_keeps body).mono fun _ h => by simp [Exp.ids, h]).bind fun _ =>
      .of_onlyReports (.require_then _ _ _ (.pure _))) (by simp [Exp.ids])
  | .ifThenElse node test yes no =>
    .noteExp (((inferExp_keeps test).mono fun _ h => by simp [Exp.ids, h]).bind fun _ =>
      (Keeps.of_onlyReports (OnlyReports.require _ _ _).discard).bind fun _ =>
      ((inferExp_keeps yes).mono fun _ h => by simp [Exp.ids, h]).bind fun yesType =>
      ((inferExp_keeps no).mono fun _ h => by simp [Exp.ids, h]).bind fun noType =>
      .of_onlyReports (typeOfBranches_onlyReports yesType noType no.start)) (by simp [Exp.ids])
  | .whileDo node test body =>
    .noteExp (((inferExp_keeps test).mono fun _ h => by simp [Exp.ids, h]).bind fun _ =>
      (Keeps.of_onlyReports (OnlyReports.require _ _ _).discard).bind fun _ =>
      (((inferExp_keeps body).mono fun _ h => by simp [Exp.ids, h]).inLoop).bind fun _ =>
      .of_onlyReports (.require_then _ _ _ (.pure _))) (by simp [Exp.ids])
  | .forTo node name lo hi body =>
    .noteExp (((inferExp_keeps lo).mono fun _ h => by simp [Exp.ids, h]).bind fun _ =>
      (Keeps.of_onlyReports (OnlyReports.require _ _ _).discard).bind fun _ =>
      ((inferExp_keeps hi).mono fun _ h => by simp [Exp.ids, h]).bind fun _ =>
      (Keeps.of_onlyReports (OnlyReports.require _ _ _).discard).bind fun _ =>
      (Keeps.withLoopVar name (((inferExp_keeps body).mono fun _ h => by simp [Exp.ids, h]).inLoop)
        (by simp [Exp.ids])).bind fun _ =>
      .of_onlyReports (.require_then _ _ _ (.pure _))) (by simp [Exp.ids])
  | .breakLoop node => .noteExp (.of_onlyReports (typeOfBreak_onlyReports _)) (by simp [Exp.ids])
  | .letIn node decs body =>
    .noteExp ((block_keeps (checkBodies_works decs) (inferExp_keeps body)).mono
      fun _ => List.mem_cons_of_mem _) (by simp [Exp.ids])
  | .array node typeName size init =>
    .noteExp ((Keeps.of_onlyReports (typeNamed_onlyReports typeName node.span.start)).bind fun ty =>
      ((inferExp_keeps size).mono fun _ h => by simp [Exp.ids, h]).bind fun _ =>
      (Keeps.of_onlyReports (OnlyReports.require _ _ _).discard).bind fun _ =>
      ((inferExp_keeps init).mono fun _ h => by simp [Exp.ids, h]).bind fun initType =>
      .of_onlyReports (typeOfArray_onlyReports ty typeName initType _ _)) (by simp [Exp.ids])

theorem inferVar_keeps : ∀ v : Var, Keeps (· ∈ v.ids) (inferVar v)
  | .simple node name => .noteVar (.typeOfSimple name (by simp [Var.ids])) (by simp [Var.ids])
  | .field node base name =>
    .noteVar (((inferVar_keeps base).mono fun _ h => by simp [Var.ids, h]).bind fun baseType =>
      .of_onlyReports (typeOfField_onlyReports baseType name _)) (by simp [Var.ids])
  | .subscript node base index =>
    .noteVar (((inferVar_keeps base).mono fun _ h => by simp [Var.ids, h]).bind fun baseType =>
      ((inferExp_keeps index).mono fun _ h => by simp [Var.ids, h]).bind fun _ =>
      .of_onlyReports (.require_then _ _ _ (typeOfSubscript_onlyReports baseType _)))
      (by simp [Var.ids])

theorem inferExps_keeps : ∀ es : List Exp, Keeps (· ∈ Exp.idsList es) (inferExps es)
  | [] => .pure _
  | e :: es => ((inferExp_keeps e).mono fun _ h => by simp [Exp.idsList, h]).bind fun _ =>
    ((inferExps_keeps es).mono fun _ h => by simp [Exp.idsList, h]).bind fun _ => .pure _

theorem inferGiven_keeps : ∀ fields : List FieldExp,
    Keeps (· ∈ FieldExp.idsList fields) (inferGiven fields)
  | [] => .pure _
  | .mk span name value :: fields =>
    ((inferExp_keeps value).mono fun _ h => by simp [FieldExp.idsList, h]).bind fun _ =>
    ((inferGiven_keeps fields).mono fun _ h => by simp [FieldExp.idsList, h]).bind fun _ => .pure _

theorem checkBodies_works : ∀ (decs : List Dec) {outer s : Checker} {base : Nat}, outer.Inside s →
    base ≤ s.frames.frames.size → FramesFrom base decs s →
    outer.Works base (· ∈ Dec.innerIds decs) s ((checkBodies decs).run s).2
  | [], _, s, _, h, _, _ => ⟨h, .refl s⟩
  | .var node name typeName init :: decs, outer, s, base, h, hbase, hframes => by
    have hinit : Keeps (· ∈ Dec.innerIds (.var node name typeName init :: decs))
        (inferExp init >>= fun initType => declaredType node typeName initType init.start) :=
      ((inferExp_keeps init).mono fun _ h => by simp [Dec.innerIds, h]).bind fun _ =>
        .of_onlyReports (declaredType_onlyReports _ _ _ _)
    have htype := h.works_of_keeps hbase (hinit s h.resolved)
    have hvar := htype.trans (declareVar_works htype.inside (hbase.trans htype.grows.size_le) node
      (by simp [Dec.innerIds]) name
      ((inferExp init >>= fun initType => declaredType node typeName initType init.start).run s).1)
    have hrest := checkBodies_works decs hvar.inside (hbase.trans hvar.grows.size_le)
      (hframes.tail.grows hvar.grows)
    exact hvar.trans (hrest.mono fun _ h => by simp [Dec.innerIds, h])
  | .type node name definition :: decs, outer, s, base, h, hbase, hframes =>
    (checkBodies_works decs h hbase hframes.tail).mono fun _ h => by simp [Dec.innerIds, h]
  | .function node name params result body :: decs, outer, s, base, h, hbase, hframes => by
    have hbody : Keeps (· ∈ Dec.innerIds (.function node name params result body :: decs))
        (inferExp body) :=
      (inferExp_keeps body).mono fun _ h => by simp [Dec.innerIds, h]
    have hparams : ∀ param ∈ params,
        param.node.id ∈ Dec.innerIds (.function node name params result body :: decs) := by
      intro param hparam
      have hmem : param.node.id ∈ params.map (·.node.id) := List.mem_map_of_mem hparam
      exact List.mem_append_left _ hmem
    have hfunction : outer.Works base (· ∈ Dec.innerIds (.function node name params result body :: decs))
        s ((checkFunction node.id params result body).run s).2 := by
      obtain ⟨henv, hgrows⟩ := checkFunction_keeps result h.resolved hbase
        (hframes _ List.mem_cons_self rfl) hparams hbody
      exact ⟨h.of_sameEnv henv, hgrows⟩
    have hrest := checkBodies_works decs hfunction.inside (hbase.trans hfunction.grows.size_le)
      (hframes.tail.grows hfunction.grows)
    rw [checkBodies_function]
    exact hfunction.trans (hrest.mono fun _ h => by simp [Dec.innerIds, h])

end

end CheckM

end TigerLang
