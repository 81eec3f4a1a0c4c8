import TigerLang.Proofs.Checks
import TigerLang.Proofs.Marks

/-! Checking a program as a sequence of steps, each of which writes down one thing that has not been
written down before. What is written down stays as it is, so that everything in a history holds in
the end, and tables that grow by single new entries are free of sharing and of gaps. -/

namespace TigerLang

def Surrounding.isFunctionBody : Surrounding → Bool
  | .functionBody _ _ => true
  | _ => false

def functionDepth (around : List Surrounding) : Nat := around.countP Surrounding.isFunctionBody

theorem functionDepth_functionBody (node : Node) (params : List Field) (around : List Surrounding) :
    functionDepth (.functionBody node params :: around) = functionDepth around + 1 :=
  List.countP_cons_of_pos rfl

/-- The type names that are known in surroundings: those of each block are what entering it leaves
them with, and have the types that its declarations call for. -/
inductive TypeStack (registry : Registry) : List Surrounding → Scopes TypeBinding → Prop
  | nil : TypeStack registry [] Checker.builtinTypes
  | whileBody {around types} (h : TypeStack registry around types) :
      TypeStack registry (.whileBody :: around) types
  | forBody {around types node name} (h : TypeStack registry around types) :
      TypeStack registry (.forBody node name :: around) types
  | functionBody {around types node params} (h : TypeStack registry around types) :
      TypeStack registry (.functionBody node params :: around) (types.within [])
  | block {around decs before} {s : Checker} (h : TypeStack registry around s.types)
      (hdone : CanonicalTypes decs s (s.inBlock decs))
      (hregistry : (s.inBlock decs).registry.Extends registry) :
      TypeStack registry (.block decs before :: around) (s.inBlock decs).types

theorem TypeStack.mono {registry registry' : Registry} {around : List Surrounding}
    {types : Scopes TypeBinding} (h : TypeStack registry around types)
    (hregistry : registry.Extends registry') : TypeStack registry' around types := by
  induction h with
  | nil => exact .nil
  | whileBody _ ih => exact .whileBody ih
  | forBody _ ih => exact .forBody ih
  | functionBody _ ih => exact .functionBody ih
  | block _ hdone hextends ih => exact .block ih hdone (hextends.trans hregistry)

def Checker.Stores (s : Checker) (slot : Slot) (ty : Ty) : Prop :=
  ∃ f, s.frames.frames[slot.frame]? = some f ∧ f.slots[slot.offset]? = some ty

/-- A slot and its type suit what the slot is for. A variable that is declared without a type has
that of its value, which must not be `nil` or `void`. -/
def Role.Fits (s : Checker) (around : List Surrounding) (offset : Nat) (ty : Ty) : Role → Prop
  | .loop => ty = .int
  | .param function place => offset = place ∧
      ∃ info, s.facts.routine? function = some info ∧ info.params[place]? = some ty
  | .declared (some typeName) _ =>
      ∃ types, TypeStack s.registry around types ∧ ty = typeIn types typeName
  | .declared none init => ∃ found, s.facts.expTypes[init]? = some found ∧
      ty = if found = .nil ∨ found = .void then .error else found

def Mark.Holds (s : Checker) : Mark → Prop
  | .exp id => ∃ ty, s.facts.expTypes[id]? = some ty
  | .var id => ∃ ty, s.facts.varTypes[id]? = some ty
  | .slot around id role => ∃ slot f ty, s.facts.slots[id]? = some slot ∧
      frameOf? s.facts around = some slot.frame ∧ s.frames.frames[slot.frame]? = some f ∧
      f.level = slot.level ∧ f.slots[slot.offset]? = some ty ∧ role.Fits s around slot.offset ty
  | .routine around id name => ∃ info f parent, s.facts.routine? id = some info ∧
      info.name = name ∧ info.symbol = name ++ "." ++ id.repr ∧
      info.level = functionDepth around + 1 ∧ s.frames.frames[info.frame]? = some f ∧
      f.name = info.symbol ∧ f.level = info.level ∧ f.parent = some parent ∧
      frameOf? s.facts around = some parent
  | .close around => ∃ frame f, frameOf? s.facts around = some frame ∧
      s.frames.frames[frame]? = some f ∧ f.finalized = true

structure Checker.Lasts (s s' : Checker) : Prop where
  frames : ∀ {i : Nat} {f}, s.frames.frames[i]? = some f → ∃ f', s'.frames.frames[i]? = some f' ∧
    f.Grows f' ∧ (f.finalized = true → f'.finalized = true)
  functions : s.facts.functions.toList <+: s'.facts.functions.toList
  expTypes : ∀ {id : Nat} {ty}, s.facts.expTypes[id]? = some ty →
    s'.facts.expTypes[id]? = some ty
  varTypes : ∀ {id : Nat} {ty}, s.facts.varTypes[id]? = some ty →
    s'.facts.varTypes[id]? = some ty
  slots : ∀ {id : Nat} {slot}, s.facts.slots[id]? = some slot → s'.facts.slots[id]? = some slot
  routineOf : ∀ {id k : Nat}, s.facts.routineOf[id]? = some k → s'.facts.routineOf[id]? = some k
  registry : s.registry.Extends s'.registry

section lasts
variable {s s' : Checker}

theorem Checker.Lasts.routine? (h : s.Lasts s') {id : Nat} {info : Routine}
    (hinfo : s.facts.routine? id = some info) : s'.facts.routine? id = some info := by
  obtain ⟨k, hk, hget⟩ := Option.bind_eq_some_iff.mp hinfo
  refine Option.bind_eq_some_iff.mpr ⟨k, h.routineOf hk, ?_⟩
  rw [← Array.getElem?_toList] at hget ⊢
  exact getElem?_of_prefix h.functions hget

theorem Checker.Lasts.frameOf? (h : s.Lasts s') {around : List Surrounding} {frame : Nat}
    (hframe : TigerLang.frameOf? s.facts around = some frame) :
    TigerLang.frameOf? s'.facts around = some frame := by
  induction around with
  | nil => exact hframe
  | cons a around ih =>
    cases a with
    | whileBody => exact ih hframe
    | forBody node name => exact ih hframe
    | block decs before => exact ih hframe
    | functionBody node params =>
      obtain ⟨info, hinfo, rfl⟩ := Option.map_eq_some_iff.mp hframe
      exact Option.map_eq_some_iff.mpr ⟨info, h.routine? hinfo, rfl⟩

theorem Frame.Grows.slot {f f' : Frame} (h : f.Grows f') {offset : Nat} {ty : Ty}
    (hty : f.slots[offset]? = some ty) : f'.slots[offset]? = some ty := by
  rw [← Array.getElem?_toList] at hty ⊢
  exact getElem?_of_prefix h.slots hty

theorem Checker.Stores.lasts {slot : Slot} {ty : Ty} (h : s.Stores slot ty) (hlasts : s.Lasts s') :
    s'.Stores slot ty := by
  obtain ⟨f, hf, hty⟩ := h
  obtain ⟨f', hf', hgrows, -⟩ := hlasts.frames hf
  exact ⟨f', hf', hgrows.slot hty⟩

theorem Role.Fits.lasts {role : Role} {around : List Surrounding} {offset : Nat} {ty : Ty}
    (h : role.Fits s around offset ty) (hlasts : s.Lasts s') : role.Fits s' around offset ty := by
  match role, h with
  | .loop, h => exact h
  | .param _ _, ⟨hplace, info, hinfo, hty⟩ => exact ⟨hplace, info, hlasts.routine? hinfo, hty⟩
  | .declared (some _) _, ⟨types, htypes, hty⟩ => exact ⟨types, htypes.mono hlasts.registry, hty⟩
  | .declared none _, ⟨found, hfound, hty⟩ => exact ⟨found, hlasts.expTypes hfound, hty⟩

theorem Mark.Holds.lasts {mark : Mark} (h : mark.Holds s) (hlasts : s.Lasts s') :
    mark.Holds s' := by
  match mark, h with
  | .exp _, ⟨ty, hty⟩ => exact ⟨ty, hlasts.expTypes hty⟩
  | .var _, ⟨ty, hty⟩ => exact ⟨ty, hlasts.varTypes hty⟩
  | .slot _ _ _, ⟨kept, f, ty, hslot, hframe, hf, hlevel, hty, hfits⟩ =>
    obtain ⟨f', hf', hgrows, -⟩ := hlasts.frames hf
    exact ⟨kept, f', ty, hlasts.slots hslot, hlasts.frameOf? hframe, hf', hgrows.level.trans hlevel,
      hgrows.slot hty, hfits.lasts hlasts⟩
  | .routine _ _ _, ⟨info, f, parent, hinfo, hname, hsymbol, hdepth, hf, hfname, hlevel, hparent,
      hframe⟩ =>
    obtain ⟨f', hf', hgrows, -⟩ := hlasts.frames hf
    exact ⟨info, f', parent, hlasts.routine? hinfo, hname, hsymbol, hdepth, hf',
      hgrows.name.trans hfname, hgrows.level.trans hlevel, hgrows.parent.trans hparent,
      hlasts.frameOf? hframe⟩
  | .close _, ⟨frame, f, hframe, hf, hfinalized⟩ =>
    obtain ⟨f', hf', -, hkept⟩ := hlasts.frames hf
    exact ⟨frame, f', hlasts.frameOf? hframe, hf', hkept hfinalized⟩

end lasts

/-- One step of checking, with what it writes down. A step aside writes down nothing of the kind. -/
inductive Step : Checker → Multiset Mark → Checker → Prop
  | aside {s s' : Checker} {calls} (hfacts : s'.facts = { s.facts with calls })
      (hframes : s'.frames.frames = s.frames.frames)
      (hregistry : s.registry.Extends s'.registry) : Step s 0 s'
  | exp {s s' : Checker} {id ty} (hnew : s.facts.expTypes[id]? = none)
      (hfacts : s'.facts = { s.facts with expTypes := s.facts.expTypes.insert id ty })
      (hframes : s'.frames.frames = s.frames.frames) (hregistry : s'.registry = s.registry) :
      Step s {.exp id} s'
  | var {s s' : Checker} {id ty} (hnew : s.facts.varTypes[id]? = none)
      (hunused : s.facts.varUses[id]? = none)
      (hfacts : s'.facts = { s.facts with varTypes := s.facts.varTypes.insert id ty })
      (hframes : s'.frames.frames = s.frames.frames) (hregistry : s'.registry = s.registry) :
      Step s {.var id} s'
  | use {s s' : Checker} {id use ty} (hnew : s.facts.varTypes[id]? = none)
      (hstores : s.Stores use.slot ty)
      (hfacts : s'.facts = { s.facts with
        varUses := s.facts.varUses.insert id use
        varTypes := s.facts.varTypes.insert id ty })
      (hframes : s'.frames.frames = s.frames.frames) (hregistry : s'.registry = s.registry) :
      Step s {.var id} s'
  | slot {s s' : Checker} {around id role frame f ty} (hnew : s.facts.slots[id]? = none)
      (hframe : frameOf? s.facts around = some frame) (hf : s.frames.frames[frame]? = some f)
      (hfits : role.Fits s around f.slots.size ty)
      (hfacts : s'.facts = { s.facts with
        slots := s.facts.slots.insert id ⟨frame, f.level, f.slots.size⟩ })
      (hframes : s'.frames.frames = s.frames.frames.modify frame fun f =>
        { f with slots := f.slots.push ty })
      (hregistry : s'.registry = s.registry) : Step s {.slot around id role} s'
  | routine {s s' : Checker} {around node name params result}
      (hnew : s.facts.routineOf[node.id]? = none)
      (hframe : frameOf? s.facts around = some s.frames.current)
      (hlevel : s.frames.level = functionDepth around)
      (hfacts : s'.facts = (s.withFunction node name params result).facts)
      (hframes : s'.frames.frames = (s.withFunction node name params result).frames.frames)
      (hregistry : s'.registry = s.registry) : Step s {.routine around node.id name} s'
  | close {s s' : Checker} {around frame f} (hframe : frameOf? s.facts around = some frame)
      (hf : s.frames.frames[frame]? = some f) (hfacts : s'.facts = s.facts)
      (hframes : s'.frames.frames = s.frames.frames.modify frame fun f =>
        { f with finalized := true })
      (hregistry : s'.registry = s.registry) : Step s {.close around} s'

theorem NodeMap.getElem?_insert_of_none {α : Type} {map : NodeMap α} {key id : Nat} {value old : α}
    (hnew : map[key]? = none) (h : map[id]? = some old) :
    (map.insert key value)[id]? = some old := by
  have hne : id ≠ key := fun heq => by simp [heq, hnew] at h
  rw [getElem?_insert_of_ne value hne, h]

theorem exists_getElem?_modify {frames : Array Frame} {change : Frame → Frame} (frame : Nat)
    (hgrows : ∀ f : Frame, f.Grows (change f))
    (hfinalized : ∀ f : Frame, f.finalized = true → (change f).finalized = true) {i : Nat}
    {f : Frame} (hf : frames[i]? = some f) :
    ∃ f', (frames.modify frame change)[i]? = some f' ∧ f.Grows f' ∧
      (f.finalized = true → f'.finalized = true) := by
  rw [Array.getElem?_modify, hf]
  split
  · exact ⟨change f, rfl, hgrows f, hfinalized f⟩
  · exact ⟨f, rfl, .refl f, id⟩

theorem Step.lasts {s s' : Checker} {marks : Multiset Mark} (h : Step s marks s') : s.Lasts s' := by
  have hsame : s'.frames.frames = s.frames.frames → ∀ {i : Nat} {f : Frame},
      s.frames.frames[i]? = some f → ∃ f', s'.frames.frames[i]? = some f' ∧ f.Grows f' ∧
        (f.finalized = true → f'.finalized = true) :=
    fun hframes {_ f} hf => ⟨f, hframes ▸ hf, .refl f, id⟩
  -- With `rw` the first goal is closed already where the prefix order is known to be reflexive.
  cases h with
  | aside hfacts hframes hregistry =>
    refine ⟨hsame hframes, ?_, ?_, ?_, ?_, ?_, hregistry⟩ <;> rewrite [hfacts]
    · exact List.prefix_rfl
    all_goals exact id
  | exp hnew hfacts hframes hregistry =>
    refine ⟨hsame hframes, ?_, ?_, ?_, ?_, ?_, hregistry ▸ .refl _⟩ <;> rewrite [hfacts]
    · exact List.prefix_rfl
    · exact NodeMap.getElem?_insert_of_none hnew
    all_goals exact id
  | var hnew _ hfacts hframes hregistry =>
    refine ⟨hsame hframes, ?_, ?_, ?_, ?_, ?_, hregistry ▸ .refl _⟩ <;> rewrite [hfacts]
    · exact List.prefix_rfl
    · exact id
    · exact NodeMap.getElem?_insert_of_none hnew
    all_goals exact id
  | use hnew _ hfacts hframes hregistry =>
    refine ⟨hsame hframes, ?_, ?_, ?_, ?_, ?_, hregistry ▸ .refl _⟩ <;> rewrite [hfacts]
    · exact List.prefix_rfl
    · exact id
    · exact NodeMap.getElem?_insert_of_none hnew
    all_goals exact id
  | slot hnew _ _ _ hfacts hframes hregistry =>
    refine ⟨?_, ?_, ?_, ?_, ?_, ?_, hregistry ▸ .refl _⟩ <;> try rewrite [hfacts]
    · rw [hframes]
      refine fun hf => exists_getElem?_modify _ ?_ ?_ hf
      · exact fun f => ⟨rfl, rfl, rfl, by simp⟩
      · exact fun f => id
    · exact List.prefix_rfl
    · exact id
    · exact id
    · exact NodeMap.getElem?_insert_of_none hnew
    · exact id
  | routine hnew _ _ hfacts hframes hregistry =>
    refine ⟨?_, ?_, ?_, ?_, ?_, ?_, hregistry ▸ .refl _⟩ <;> try rewrite [hfacts]
    · intro i f hf
      refine ⟨f, ?_, .refl f, id⟩
      obtain ⟨hlt, -⟩ := Array.getElem?_eq_some_iff.mp hf
      rw [hframes]
      exact (Array.getElem?_push_lt hlt).trans ((Array.getElem?_eq_getElem hlt).symm.trans hf)
    · simp [Checker.withFunction]
    · exact id
    · exact id
    · exact id
    · exact NodeMap.getElem?_insert_of_none hnew
  | close _ _ hfacts hframes hregistry =>
    refine ⟨?_, ?_, ?_, ?_, ?_, ?_, hregistry ▸ .refl _⟩ <;> try rewrite [hfacts]
    · rw [hframes]
      refine fun hf => exists_getElem?_modify _ ?_ ?_ hf
      · exact fun f => ⟨rfl, rfl, rfl, List.prefix_rfl⟩
      · exact fun f _ => rfl
    · exact List.prefix_rfl
    all_goals exact id

theorem Step.holds {s s' : Checker} {marks : Multiset Mark} (h : Step s marks s') :
    ∀ mark ∈ marks, mark.Holds s' := by
  have hlasts := h.lasts
  cases h with
  | aside => simp
  | exp _ hfacts =>
    intro mark hmark
    obtain rfl := Multiset.mem_singleton.mp hmark
    exact ⟨_, by rw [hfacts]; exact NodeMap.getElem?_insert_self _ _ _⟩
  | var _ _ hfacts =>
    intro mark hmark
    obtain rfl := Multiset.mem_singleton.mp hmark
    exact ⟨_, by rw [hfacts]; exact NodeMap.getElem?_insert_self _ _ _⟩
  | use _ _ hfacts =>
    intro mark hmark
    obtain rfl := Multiset.mem_singleton.mp hmark
    exact ⟨_, by rw [hfacts]; exact NodeMap.getElem?_insert_self _ _ _⟩
  | @slot _ around id role frame f ty _ hframe hf hfits hfacts hframes =>
    intro mark hmark
    obtain rfl := Multiset.mem_singleton.mp hmark
    have hpushed : s'.frames.frames[frame]? = some { f with slots := f.slots.push ty } := by
      rw [hframes, Array.getElem?_modify, if_pos rfl, hf]
      rfl
    refine ⟨⟨frame, f.level, f.slots.size⟩, _, ty, ?_, hlasts.frameOf? hframe, hpushed, rfl, ?_,
      hfits.lasts hlasts⟩
    · rw [hfacts]
      exact NodeMap.getElem?_insert_self _ _ _
    · exact Array.getElem?_push_size
  | @routine _ around node name params result _ hframe hlevel hfacts hframes =>
    intro mark hmark
    obtain rfl := Multiset.mem_singleton.mp hmark
    have hpushed : s'.frames.frames[s.frames.frames.size]? = some ⟨name ++ "." ++ node.id.repr,
        s.frames.level + 1, some s.frames.current, #[], false⟩ := by
      rw [hframes]
      exact Array.getElem?_push_size
    refine ⟨s.newRoutine node name params result, _, s.frames.current, ?_, rfl, rfl, ?_, hpushed,
      rfl, rfl, rfl, hlasts.frameOf? hframe⟩
    · rw [hfacts, Checker.routine?_withFunction, if_pos rfl]
    · exact congrArg (· + 1) hlevel
  | @close _ around frame f hframe hf _ hframes =>
    intro mark hmark
    obtain rfl := Multiset.mem_singleton.mp hmark
    refine ⟨frame, { f with finalized := true }, hlasts.frameOf? hframe, ?_, rfl⟩
    rw [hframes, Array.getElem?_modify, if_pos rfl, hf]
    rfl

inductive History : Checker → Multiset Mark → Checker → Prop
  | step {s marks s'} (h : Step s marks s') : History s marks s'
  | append {s marks s' marks' s''} (h : History s marks s') (h' : History s' marks' s'') :
      History s (marks + marks') s''

theorem History.keeps {P : Multiset Mark → Checker → Prop}
    (hstep : ∀ {before s marks s'}, P before s → Step s marks s' → P (before + marks) s')
    {s s' : Checker} {before marks : Multiset Mark} (hs : P before s) (h : History s marks s') :
    P (before + marks) s' := by
  induction h generalizing before with
  | step h => exact hstep hs h
  | append _ _ ih ih' =>
    rw [← add_assoc]
    exact ih' (ih hs)

theorem Step.new {s s' : Checker} {marks : Multiset Mark} (h : Step s marks s') {a b : Mark}
    {entry : Nat ⊕ Nat} (ha : a ∈ marks) (hentry : a.entry? = some entry)
    (hb : b.entry? = some entry) : ¬ b.Holds s := by
  intro hholds
  cases h with
  | aside => simp at ha
  | slot hnew =>
    obtain rfl := Multiset.mem_singleton.mp ha
    obtain rfl := Option.some.inj hentry
    cases b <;> simp only [Mark.entry?, Option.some.injEq, Sum.inl.injEq, reduceCtorEq] at hb
    obtain ⟨slot, -, -, hslot, -⟩ := hholds
    simp [hb, hnew] at hslot
  | routine hnew =>
    obtain rfl := Multiset.mem_singleton.mp ha
    obtain rfl := Option.some.inj hentry
    cases b <;> simp only [Mark.entry?, Option.some.injEq, Sum.inr.injEq, reduceCtorEq] at hb
    obtain ⟨info, -, -, hinfo, -⟩ := hholds
    simp [Facts.routine?, hb, hnew] at hinfo
  | _ =>
    obtain rfl := Multiset.mem_singleton.mp ha
    cases hentry

theorem Step.nodup {s s' : Checker} {marks : Multiset Mark} (h : Step s marks s') :
    (marks.filterMap Mark.entry?).Nodup := by
  cases h with
  | aside => exact Multiset.nodup_zero
  | slot => exact Multiset.nodup_singleton _
  | routine => exact Multiset.nodup_singleton _
  | _ => exact Multiset.nodup_zero

/-- Everything that has been written down holds in the end, and nothing is written down twice. -/
theorem History.holds_once {s s' : Checker} {marks : Multiset Mark} (h : History s marks s') :
    (∀ mark ∈ marks, mark.Holds s') ∧ (marks.filterMap Mark.entry?).Nodup := by
  rw [← zero_add marks]
  refine h.keeps (P := fun marks s => (∀ mark ∈ marks, mark.Holds s) ∧
    (marks.filterMap Mark.entry?).Nodup) ?_ (by simp)
  rintro before s marks s' ⟨hholds, honce⟩ hstep
  refine ⟨fun mark hmark => ?_, ?_⟩
  · rcases Multiset.mem_add.mp hmark with hmark | hmark
    · exact (hholds mark hmark).lasts hstep.lasts
    · exact hstep.holds mark hmark
  · rw [Multiset.filterMap_add, Multiset.nodup_add]
    refine ⟨honce, hstep.nodup, Multiset.disjoint_left.mpr fun {entry} hold hnew => ?_⟩
    obtain ⟨b, hb, hbentry⟩ := (Multiset.mem_filterMap _ _).mp hold
    obtain ⟨a, ha, haentry⟩ := (Multiset.mem_filterMap _ _).mp hnew
    exact hstep.new ha haentry hbentry (hholds b hb)

theorem NodeMap.of_getElem?_insert {α : Type} {map : NodeMap α} {key id : Nat} {value found : α}
    (h : (map.insert key value)[id]? = some found) :
    id = key ∧ found = value ∨ map[id]? = some found := by
  by_cases hid : id = key
  · subst hid
    rw [getElem?_insert_self] at h
    exact .inl ⟨rfl, (Option.some.inj h).symm⟩
  · exact .inr ((getElem?_insert_of_ne value hid).symm.trans h)

theorem Step.of_expTypes {s s' : Checker} {marks : Multiset Mark} (h : Step s marks s') {id : Nat}
    {ty : Ty} (hty : s'.facts.expTypes[id]? = some ty) :
    s.facts.expTypes[id]? = some ty ∨ .exp id ∈ marks := by
  cases h with
  | aside hfacts _ _ => exact .inl (by rwa [hfacts] at hty)
  | exp _ hfacts _ _ =>
    rw [hfacts] at hty
    rcases NodeMap.of_getElem?_insert hty with ⟨rfl, -⟩ | hty
    · exact .inr (Multiset.mem_singleton_self _)
    · exact .inl hty
  | var _ _ hfacts _ _ => exact .inl (by rwa [hfacts] at hty)
  | use _ _ hfacts _ _ => exact .inl (by rwa [hfacts] at hty)
  | slot _ _ _ _ hfacts _ _ => exact .inl (by rwa [hfacts] at hty)
  | routine _ _ _ hfacts _ _ => exact .inl (by rwa [hfacts] at hty)
  | close _ _ hfacts _ _ => exact .inl (by rwa [hfacts] at hty)

theorem Step.of_varTypes {s s' : Checker} {marks : Multiset Mark} (h : Step s marks s') {id : Nat}
    {ty : Ty} (hty : s'.facts.varTypes[id]? = some ty) :
    s.facts.varTypes[id]? = some ty ∨ .var id ∈ marks := by
  cases h with
  | aside hfacts _ _ => exact .inl (by rwa [hfacts] at hty)
  | exp _ hfacts _ _ => exact .inl (by rwa [hfacts] at hty)
  | var _ _ hfacts _ _ =>
    rw [hfacts] at hty
    rcases NodeMap.of_getElem?_insert hty with ⟨rfl, -⟩ | hty
    · exact .inr (Multiset.mem_singleton_self _)
    · exact .inl hty
  | use _ _ hfacts _ _ =>
    rw [hfacts] at hty
    rcases NodeMap.of_getElem?_insert hty with ⟨rfl, -⟩ | hty
    · exact .inr (Multiset.mem_singleton_self _)
    · exact .inl hty
  | slot _ _ _ _ hfacts _ _ => exact .inl (by rwa [hfacts] at hty)
  | routine _ _ _ hfacts _ _ => exact .inl (by rwa [hfacts] at hty)
  | close _ _ hfacts _ _ => exact .inl (by rwa [hfacts] at hty)

theorem Step.of_varUses {s s' : Checker} {marks : Multiset Mark} (h : Step s marks s') {id : Nat}
    {use : VarUse} (huse : s'.facts.varUses[id]? = some use) : s.facts.varUses[id]? = some use ∨
      ∃ ty, s'.facts.varTypes[id]? = some ty ∧ s.Stores use.slot ty := by
  cases h with
  | aside hfacts _ _ => exact .inl (by rwa [hfacts] at huse)
  | exp _ hfacts _ _ => exact .inl (by rwa [hfacts] at huse)
  | var _ _ hfacts _ _ => exact .inl (by rwa [hfacts] at huse)
  | use _ hstores hfacts _ _ =>
    rw [hfacts] at huse ⊢
    rcases NodeMap.of_getElem?_insert huse with ⟨rfl, rfl⟩ | huse
    · exact .inr ⟨_, NodeMap.getElem?_insert_self _ _ _, hstores⟩
    · exact .inl huse
  | slot _ _ _ _ hfacts _ _ => exact .inl (by rwa [hfacts] at huse)
  | routine _ _ _ hfacts _ _ => exact .inl (by rwa [hfacts] at huse)
  | close _ _ hfacts _ _ => exact .inl (by rwa [hfacts] at huse)

/-- Types have been written down for nothing else, and a use of a variable has the type that is kept
in the slot of the variable. -/
structure NotesAccounted (marks : Multiset Mark) (s : Checker) : Prop where
  exps : ∀ {id : Nat} {ty}, s.facts.expTypes[id]? = some ty → .exp id ∈ marks
  vars : ∀ {id : Nat} {ty}, s.facts.varTypes[id]? = some ty → .var id ∈ marks
  uses : ∀ {id : Nat} {use}, s.facts.varUses[id]? = some use →
    ∃ ty, s.facts.varTypes[id]? = some ty ∧ s.Stores use.slot ty

theorem NotesAccounted.step {before marks : Multiset Mark} {s s' : Checker}
    (h : NotesAccounted before s) (hstep : Step s marks s') :
    NotesAccounted (before + marks) s' where
  exps hty := by
    rcases hstep.of_expTypes hty with hold | hmem
    · exact Multiset.mem_add.mpr (.inl (h.exps hold))
    · exact Multiset.mem_add.mpr (.inr hmem)
  vars hty := by
    rcases hstep.of_varTypes hty with hold | hmem
    · exact Multiset.mem_add.mpr (.inl (h.vars hold))
    · exact Multiset.mem_add.mpr (.inr hmem)
  uses huse := by
    have hlasts := hstep.lasts
    rcases hstep.of_varUses huse with hold | ⟨ty, hty, hstores⟩
    · obtain ⟨ty, hty, hstores⟩ := h.uses hold
      exact ⟨ty, hlasts.varTypes hty, hstores.lasts hlasts⟩
    · exact ⟨ty, hty, hstores.lasts hlasts⟩

/-- The slots that have been written down are those that there are in the frames, each once. -/
structure SlotsAccounted (marks : Multiset Mark) (s : Checker) : Prop where
  marked : ∀ {id : Nat} {slot}, s.facts.slots[id]? = some slot → ∃ around role,
    .slot around id role ∈ marks
  valid : ∀ {id : Nat} {slot}, s.facts.slots[id]? = some slot → ∃ f,
    s.frames.frames[slot.frame]? = some f ∧ slot.offset < f.slots.size
  injective : ∀ {i j : Nat} {a b}, s.facts.slots[i]? = some a → s.facts.slots[j]? = some b →
    a.frame = b.frame → a.offset = b.offset → i = j
  surjective : ∀ {n k : Nat} {f}, s.frames.frames[n]? = some f → k < f.slots.size →
    ∃ (id : Nat) (slot : Slot), s.facts.slots[id]? = some slot ∧ slot.frame = n ∧ slot.offset = k

theorem SlotsAccounted.congr {before marks : Multiset Mark} {s s' : Checker}
    (h : SlotsAccounted before s) (hslots : s'.facts.slots = s.facts.slots)
    (hlasts : s.Lasts s') (hframes : ∀ {n : Nat} {f'}, s'.frames.frames[n]? = some f' →
      f'.slots = #[] ∨ ∃ f, s.frames.frames[n]? = some f ∧ f'.slots = f.slots) :
    SlotsAccounted (before + marks) s' where
  marked hslot := by
    rw [hslots] at hslot
    obtain ⟨around, role, hmem⟩ := h.marked hslot
    exact ⟨around, role, Multiset.mem_add.mpr (.inl hmem)⟩
  valid hslot := by
    rw [hslots] at hslot
    obtain ⟨f, hf, hlt⟩ := h.valid hslot
    obtain ⟨f', hf', hgrows, -⟩ := hlasts.frames hf
    have hle : f.slots.size ≤ f'.slots.size := by simpa using hgrows.slots.length_le
    exact ⟨f', hf', by omega⟩
  injective hi hj := by
    rw [hslots] at hi hj
    exact h.injective hi hj
  surjective hf' hk := by
    rw [hslots]
    rcases hframes hf' with hempty | ⟨f, hf, heq⟩
    · simp [hempty] at hk
    · exact h.surjective hf (heq ▸ hk)

theorem SlotsAccounted.step {before marks : Multiset Mark} {s s' : Checker}
    (h : SlotsAccounted before s) (hstep : Step s marks s') :
    SlotsAccounted (before + marks) s' := by
  have hlasts := hstep.lasts
  have hsame : s'.frames.frames = s.frames.frames → ∀ {n : Nat} {f' : Frame},
      s'.frames.frames[n]? = some f' →
      f'.slots = #[] ∨ ∃ f, s.frames.frames[n]? = some f ∧ f'.slots = f.slots :=
    fun hframes {_ f'} hf' => .inr ⟨f', hframes ▸ hf', rfl⟩
  cases hstep with
  | aside hfacts hframes _ => exact h.congr (by rw [hfacts]) hlasts (hsame hframes)
  | exp _ hfacts hframes _ => exact h.congr (by rw [hfacts]) hlasts (hsame hframes)
  | var _ _ hfacts hframes _ => exact h.congr (by rw [hfacts]) hlasts (hsame hframes)
  | use _ _ hfacts hframes _ => exact h.congr (by rw [hfacts]) hlasts (hsame hframes)
  | routine _ _ _ hfacts hframes _ =>
    refine h.congr (by rw [hfacts]; rfl) hlasts fun {n f'} hf' => ?_
    rw [hframes] at hf'
    change (s.frames.frames.push _)[n]? = some f' at hf'
    rw [Array.getElem?_push] at hf'
    split at hf'
    · exact .inl (Option.some.inj hf' ▸ rfl)
    · exact .inr ⟨f', hf', rfl⟩
  | close _ _ hfacts hframes _ =>
    refine h.congr (by rw [hfacts]) hlasts fun {n f'} hf' => .inr ?_
    rw [hframes, Array.getElem?_modify] at hf'
    split at hf'
    · obtain ⟨f, hf, rfl⟩ := Option.map_eq_some_iff.mp hf'
      exact ⟨f, hf, rfl⟩
    · exact ⟨f', hf', rfl⟩
  | @slot _ around id role frame f ty hnew _ hf _ hfacts hframes _ =>
    -- The new slot is the last one of its frame, where no other variable is kept.
    have hpushed : s'.frames.frames[frame]? = some { f with slots := f.slots.push ty } := by
      rw [hframes, Array.getElem?_modify, if_pos rfl, hf]
      rfl
    have hlast : ∀ {j : Nat} {b}, s.facts.slots[j]? = some b → b.frame = frame →
        b.offset < f.slots.size := by
      intro j b hb hframe
      obtain ⟨f', hf', hlt⟩ := h.valid hb
      rw [hframe, hf] at hf'
      exact Option.some.inj hf' ▸ hlt
    constructor
    · intro j b hb
      rw [hfacts] at hb
      rcases NodeMap.of_getElem?_insert hb with ⟨rfl, -⟩ | hb
      · exact ⟨around, role, by simp⟩
      · obtain ⟨around, role, hmem⟩ := h.marked hb
        exact ⟨around, role, Multiset.mem_add.mpr (.inl hmem)⟩
    · intro j b hb
      rw [hfacts] at hb
      rcases NodeMap.of_getElem?_insert hb with ⟨rfl, rfl⟩ | hb
      · exact ⟨_, hpushed, by simp⟩
      · obtain ⟨g, hg, hlt⟩ := h.valid hb
        obtain ⟨g', hg', hgrows, -⟩ := hlasts.frames hg
        have hle : g.slots.size ≤ g'.slots.size := by simpa using hgrows.slots.length_le
        exact ⟨g', hg', by omega⟩
    · intro i j a b ha hb hframe hoffset
      rw [hfacts] at ha hb
      rcases NodeMap.of_getElem?_insert ha with ⟨rfl, rfl⟩ | ha' <;>
        rcases NodeMap.of_getElem?_insert hb with ⟨rfl, rfl⟩ | hb'
      · rfl
      · exact absurd (hlast hb' hframe.symm) (by simp [← hoffset])
      · exact absurd (hlast ha' hframe) (by simp [hoffset])
      · exact h.injective ha' hb' hframe hoffset
    · intro n k f' hf' hk
      rw [hfacts]
      by_cases hn : n = frame
      · subst hn
        obtain rfl := Option.some.inj (hpushed.symm.trans hf')
        rcases Nat.lt_succ_iff_lt_or_eq.mp (by simpa using hk) with hk | rfl
        · obtain ⟨j, b, hb, hframe, hoffset⟩ := h.surjective hf hk
          exact ⟨j, b, NodeMap.getElem?_insert_of_none hnew hb, hframe, hoffset⟩
        · exact ⟨id, _, NodeMap.getElem?_insert_self _ _ _, rfl, rfl⟩
      · rw [hframes, Array.getElem?_modify, if_neg fun heq => hn heq.symm] at hf'
        obtain ⟨j, b, hb, hframe, hoffset⟩ := h.surjective hf' hk
        exact ⟨j, b, NodeMap.getElem?_insert_of_none hnew hb, hframe, hoffset⟩

/-- The functions that have been written down are numbered from zero on, and each has a frame of its
own next to the main one. -/
structure RoutinesAccounted (marks : Multiset Mark) (s : Checker) : Prop where
  marked : ∀ {id k : Nat}, s.facts.routineOf[id]? = some k → ∃ around name,
    .routine around id name ∈ marks
  valid : ∀ {id k : Nat}, s.facts.routineOf[id]? = some k → k < s.facts.functions.size
  injective : ∀ {i j k : Nat}, s.facts.routineOf[i]? = some k → s.facts.routineOf[j]? = some k →
    i = j
  surjective : ∀ {k}, k < s.facts.functions.size → ∃ id : Nat, s.facts.routineOf[id]? = some k
  frame : ∀ {k : Nat} {info}, s.facts.functions[k]? = some info → info.frame = k + 1
  frames : s.frames.frames.size = s.facts.functions.size + 1
  count : s.facts.functions.size = marks.countP (·.isRoutine)

theorem RoutinesAccounted.congr {before marks : Multiset Mark} {s s' : Checker}
    (h : RoutinesAccounted before s) (hfunctions : s'.facts.functions = s.facts.functions)
    (hroutineOf : s'.facts.routineOf = s.facts.routineOf)
    (hframes : s'.frames.frames.size = s.frames.frames.size)
    (hmarks : marks.countP (·.isRoutine) = 0) : RoutinesAccounted (before + marks) s' where
  marked hk := by
    rw [hroutineOf] at hk
    obtain ⟨around, name, hmem⟩ := h.marked hk
    exact ⟨around, name, Multiset.mem_add.mpr (.inl hmem)⟩
  valid hk := by
    rw [hroutineOf] at hk
    exact hfunctions ▸ h.valid hk
  injective hi hj := by
    rw [hroutineOf] at hi hj
    exact h.injective hi hj
  surjective hk := by
    rw [hroutineOf]
    exact h.surjective (hfunctions ▸ hk)
  frame hinfo := h.frame (hfunctions ▸ hinfo)
  frames := by rw [hframes, hfunctions, h.frames]
  count := by rw [hfunctions, h.count, Multiset.countP_add, hmarks, Nat.add_zero]

theorem RoutinesAccounted.step {before marks : Multiset Mark} {s s' : Checker}
    (h : RoutinesAccounted before s) (hstep : Step s marks s') :
    RoutinesAccounted (before + marks) s' := by
  have hlasts := hstep.lasts
  cases hstep with
  | aside hfacts hframes _ =>
    exact h.congr (by rw [hfacts]) (by rw [hfacts]) (by rw [hframes]) rfl
  | exp _ hfacts hframes _ =>
    exact h.congr (by rw [hfacts]) (by rw [hfacts]) (by rw [hframes]) rfl
  | var _ _ hfacts hframes _ =>
    exact h.congr (by rw [hfacts]) (by rw [hfacts]) (by rw [hframes]) rfl
  | use _ _ hfacts hframes _ =>
    exact h.congr (by rw [hfacts]) (by rw [hfacts]) (by rw [hframes]) rfl
  | slot _ _ _ _ hfacts hframes _ =>
    exact h.congr (by rw [hfacts]) (by rw [hfacts]) (by rw [hframes, Array.size_modify]) rfl
  | close _ _ hfacts hframes _ =>
    exact h.congr (by rw [hfacts]) (by rw [hfacts]) (by rw [hframes, Array.size_modify]) rfl
  | @routine _ around node name params result hnew _ _ hfacts hframes _ =>
    have hfunctions : s'.facts.functions =
        s.facts.functions.push (s.newRoutine node name params result) := by
      rw [hfacts]
      rfl
    have hroutineOf : s'.facts.routineOf =
        s.facts.routineOf.insert node.id s.facts.functions.size := by
      rw [hfacts]
      rfl
    constructor
    · intro id k hk
      rw [hroutineOf] at hk
      rcases NodeMap.of_getElem?_insert hk with ⟨rfl, -⟩ | hk
      · exact ⟨around, name, by simp⟩
      · obtain ⟨around, name, hmem⟩ := h.marked hk
        exact ⟨around, name, Multiset.mem_add.mpr (.inl hmem)⟩
    · intro id k hk
      rw [hroutineOf] at hk
      rw [hfunctions, Array.size_push]
      rcases NodeMap.of_getElem?_insert hk with ⟨-, rfl⟩ | hk
      · exact Nat.lt_succ_self _
      · exact Nat.lt_succ_of_lt (h.valid hk)
    · intro i j k hi hj
      rw [hroutineOf] at hi hj
      rcases NodeMap.of_getElem?_insert hi with ⟨rfl, rfl⟩ | hi' <;>
        rcases NodeMap.of_getElem?_insert hj with ⟨rfl, heq⟩ | hj'
      · rfl
      · exact absurd (h.valid hj') (Nat.lt_irrefl _)
      · exact absurd (h.valid hi') (by omega)
      · exact h.injective hi' hj'
    · intro k hk
      rw [hfunctions, Array.size_push] at hk
      rw [hroutineOf]
      rcases Nat.lt_succ_iff_lt_or_eq.mp hk with hk | rfl
      · obtain ⟨id, hid⟩ := h.surjective hk
        exact ⟨id, NodeMap.getElem?_insert_of_none hnew hid⟩
      · exact ⟨node.id, NodeMap.getElem?_insert_self _ _ _⟩
    · intro k info hinfo
      rw [hfunctions, Array.getElem?_push] at hinfo
      split at hinfo
      · next heq =>
        obtain rfl := Option.some.inj hinfo
        change s.frames.frames.size = k + 1
        rw [heq, h.frames]
      · exact h.frame hinfo
    · rw [hfunctions, hframes, Array.size_push, ← h.frames]
      exact Array.size_push _
    · rw [hfunctions, Array.size_push, h.count, Multiset.countP_add]
      rfl

end TigerLang
