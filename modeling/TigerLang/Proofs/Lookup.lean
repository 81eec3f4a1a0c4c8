import TigerLang.Proofs.Visits

/-! What a name is found to mean, wherever it stands: the nearest thing of that name, in a frame that
static links lead to. -/

namespace TigerLang

def follow (frames : Array Frame) : Nat → Nat → Option Nat
  | 0, frame => some frame
  | links + 1, frame => do follow frames links (← (← frames[frame]?).parent)

/-- As many static links as there are levels between lead to the frame with the number `target` from
that of the nearest function. -/
def Linked (s : Checker) (around : List Surrounding) (target level : Nat) : Prop :=
  ∃ frame f, frameOf? s.facts around = some frame ∧ s.frames.frames[frame]? = some f ∧
    level ≤ f.level ∧ follow s.frames.frames (staticLinks f.level level) frame = some target

namespace Linked
variable {s : Checker} {around : List Surrounding} {target level : Nat}

theorem here {f : Frame} (hframe : frameOf? s.facts around = some target)
    (hf : s.frames.frames[target]? = some f) : Linked s around target f.level := by
  refine ⟨target, f, hframe, hf, Nat.le_refl _, ?_⟩
  rw [staticLinks, Nat.sub_self, follow]

theorem functionBody {node : Node} {info : Routine} (h : Linked s around target level)
    (hinfo : Declared s around node.id info) (params : List Field) :
    Linked s (.functionBody node params :: around) target level := by
  obtain ⟨frame, f, hframe, hf, hlevel, hfollow⟩ := h
  obtain ⟨inner, p, g, hinner, hinnerLevel, hparent, hp, hg, hinfoLevel⟩ := hinfo.frame
  obtain rfl : frame = p := Option.some.inj (hframe.symm.trans hp)
  obtain rfl : f = g := Option.some.inj (hf.symm.trans hg)
  have hframe' : frameOf? s.facts (.functionBody node params :: around) = some info.frame :=
    Option.map_eq_some_iff.mpr ⟨info, hinfo.routine, rfl⟩
  have hlinks : staticLinks inner.level level = staticLinks f.level level + 1 := by
    unfold staticLinks
    omega
  refine ⟨info.frame, inner, hframe', hinner, by omega, ?_⟩
  rw [hlinks, follow, hinner]
  change (inner.parent >>= fun parent => follow _ _ parent) = _
  rw [hparent]
  exact hfollow

end Linked

def VarFound (s : Checker) (around : List Surrounding) : Option Nat → Option VarBinding → Prop
  | none, none => True
  | some id, some entry => s.facts.slots[id]? = some entry.slot ∧
      Linked s around entry.slot.frame entry.slot.level ∧
      ∃ f, s.frames.frames[entry.slot.frame]? = some f ∧ entry.slot.offset < f.slots.size
  | _, _ => False

def FunFound (s : Checker) (around : List Surrounding) : Option Nat → Option FunBinding → Prop
  | none, none => True
  | some id, some entry => ∃ k info f p, entry.target = .user k ∧ s.facts.routineOf[id]? = some k ∧
      s.facts.functions[k]? = some info ∧ s.frames.frames[info.frame]? = some f ∧
      f.parent = some p ∧ Linked s around p (info.level - 1)
  | _, _ => False

theorem VarBound.found {s : Checker} {around : List Surrounding} {id : Option Nat}
    {entry : Option VarBinding} (h : VarBound s around id entry) : VarFound s around id entry := by
  match id, entry, h with
  | none, none, _ => trivial
  | some i, some entry, ⟨hslot, hhas⟩ =>
    obtain ⟨f, hf, hlevel, hoffset⟩ := hhas.valid
    exact ⟨hslot, hlevel ▸ .here hhas.frame hf, f, hf, hoffset⟩

theorem VarFound.mono {s : Checker} {around around' : List Surrounding} {id : Option Nat}
    {entry : Option VarBinding} (h : VarFound s around id entry)
    (hlinked : ∀ {target level}, Linked s around target level → Linked s around' target level) :
    VarFound s around' id entry := by
  match id, entry, h with
  | none, none, _ => trivial
  | some i, some entry, ⟨hslot, hlink, hvalid⟩ => exact ⟨hslot, hlinked hlink, hvalid⟩

theorem FunFound.mono {s : Checker} {around around' : List Surrounding} {id : Option Nat}
    {entry : Option FunBinding} (h : FunFound s around id entry)
    (hlinked : ∀ {target level}, Linked s around target level → Linked s around' target level) :
    FunFound s around' id entry := by
  match id, entry, h with
  | none, none, _ => trivial
  | some i, some entry, ⟨k, info, f, p, htarget, hk, hinfo, hf, hparent, hlink⟩ =>
    exact ⟨k, info, f, p, htarget, hk, hinfo, hf, hparent, hlinked hlink⟩

theorem VarFound.orElse {s : Checker} {around : List Surrounding} {id id' : Option Nat}
    {entry entry' : Option VarBinding} (h : VarFound s around id entry)
    (h' : VarFound s around id' entry') : VarFound s around (id.or id') (entry.or entry') := by
  match id, entry, h with
  | none, none, _ => exact h'
  | some i, some entry, h => exact h

theorem FunFound.orElse {s : Checker} {around : List Surrounding} {id id' : Option Nat}
    {entry entry' : Option FunBinding} (h : FunFound s around id entry)
    (h' : FunFound s around id' entry') : FunFound s around (id.or id') (entry.or entry') := by
  match id, entry, h with
  | none, none, _ => exact h'
  | some i, some entry, h => exact h

theorem binder?_cons (a : Surrounding) (around : List Surrounding) (name : String) :
    binder? (a :: around) name = (a.binder? name).or (binder? around name) := by
  rw [binder?, List.findSome?_cons]
  cases a.binder? name <;> rfl

theorem callee?_cons (a : Surrounding) (around : List Surrounding) (name : String) :
    callee? (a :: around) name = (a.callee? name).or (callee? around name) := by
  rw [callee?, List.findSome?_cons]
  cases a.callee? name <;> rfl

theorem findSome?_value?_cons {α : Type} (scope : Scope α) (scopes : List (Scope α)) (name : String) :
    (scope :: scopes).findSome? (·.value? name) =
      (scope.value? name).or (scopes.findSome? (·.value? name)) := by
  rw [List.findSome?_cons]
  cases scope.value? name <;> rfl

namespace Stack
variable {s : Checker} {around : List Surrounding} {vars : List (Scope VarBinding)}
  {functions : List (Scope FunBinding)} {active : List Nat}

theorem varFound (h : Stack s around vars functions active) (name : String) :
    VarFound s around (binder? around name) (vars.findSome? (·.value? name)) := by
  induction h with
  | nil _ _ => trivial
  | whileBody _ ih => exact ih.mono id
  | forBody _ hvars ih =>
    rw [binder?_cons, findSome?_value?_cons]
    exact ((hvars name).found.orElse ih).mono id
  | functionBody _ hinfo hvars ih =>
    rw [binder?_cons, findSome?_value?_cons]
    exact (hvars name).found.orElse (ih.mono fun h => h.functionBody hinfo _)
  | block _ hvars _ _ ih =>
    rw [binder?_cons, findSome?_value?_cons]
    exact ((hvars name).found.orElse ih).mono id

theorem funFound_block {decs before : List Dec} {fscope : Scope FunBinding} {name : String}
    (hfunctions : FunBound s (functionDec? decs name) (fscope.value? name))
    (hdeclared : ∀ d ∈ decs, ∀ node name params result body,
      d = .function node name params result body →
      ∃ info, Declared s around node.id info ∧ info.params.length = params.length) :
    FunFound s around ((Surrounding.block decs before).callee? name) (fscope.value? name) := by
  change FunFound s around (functionDec? decs name) _
  match hid : functionDec? decs name, fscope.value? name, hfunctions with
  | none, none, _ => trivial
  | some id, some entry, ⟨k, htarget, hk⟩ =>
    obtain ⟨node, other, params, result, body, hmem, rfl⟩ := functionDec?_mem hid
    obtain ⟨info, hinfo, -⟩ := hdeclared _ hmem node other params result body rfl
    obtain ⟨f, p, g, hf, hlevel, hparent, hp, hg, hinfoLevel⟩ := hinfo.frame
    obtain ⟨k', hk', hget⟩ := Option.bind_eq_some_iff.mp hinfo.routine
    obtain rfl : k' = k := Option.some.inj (hk'.symm.trans hk)
    have hlink : Linked s around p (info.level - 1) := by
      have heq : info.level - 1 = g.level := by omega
      exact heq ▸ .here hp hg
    exact ⟨k', info, f, p, htarget, hk, hget, hf, hparent, hlink⟩

theorem funFound (h : Stack s around vars functions active) (name : String) :
    FunFound s around (callee? around name) (functions.findSome? (·.value? name)) := by
  induction h with
  | nil _ _ => trivial
  | whileBody _ ih => exact ih.mono id
  | forBody _ _ ih => exact ih.mono id
  | functionBody _ hinfo _ ih => exact ih.mono fun h => h.functionBody hinfo _
  | block _ _ hfunctions hdeclared ih =>
    rw [callee?_cons, findSome?_value?_cons]
    exact ((funFound_block (hfunctions name) hdeclared).orElse ih).mono id

end Stack

theorem Scopes.find?_of_root_nil {α : Type} {t : Scopes α} (h : t.root = []) (name : String) :
    t.find? name = t.inner.findSome? (·.value? name) := by
  unfold find? scopes
  rw [h, List.findSome?_append]
  exact Option.or_none

theorem Scopes.find?_eq_or {α : Type} (t : Scopes α) (name : String) :
    t.find? name = (t.inner.findSome? (·.value? name)).or (t.root.value? name) := by
  unfold find? scopes
  rw [List.findSome?_append, List.findSome?_singleton]

def LibraryFunction.binding (f : LibraryFunction) : FunBinding := ⟨f.params, f.result, .library f.symbol⟩

theorem libraryFunctions_root : Checker.libraryFunctions.root =
    LibraryFunction.all.map fun f => (f.name, f.binding) := by decide +kernel

theorem value?_libraryFunctions (name : String) : Checker.libraryFunctions.root.value? name =
    (LibraryFunction.all.find? (·.name == name)).map LibraryFunction.binding := by
  rw [libraryFunctions_root]
  induction LibraryFunction.all with
  | nil => rfl
  | cons f rest ih =>
    rw [List.map_cons, Scope.value?_cons, List.find?_cons, ih]
    by_cases h : name = f.name
    · rw [if_pos h, beq_iff_eq.mpr h.symm]
      rfl
    · rw [if_neg h, beq_eq_false_iff_ne.mpr fun heq => h heq.symm]

namespace CheckM
variable {s : Checker} {node : Node} {name : String}

theorem typeOfSimple_none (h : s.vars.find? name = none) : (typeOfSimple node name).run s =
    (.error, ((report (.undefinedName .variable name) node.span.start).run s).2) := by
  rw [typeOfSimple, run_get_bind, h]
  rfl

theorem typeOfSimple_some {entry : VarBinding} (h : s.vars.find? name = some entry) :
    (typeOfSimple node name).run s = (entry.ty, { s with facts := { s.facts with
      varUses := s.facts.varUses.insert node.id ⟨entry.slot, s.frames.level⟩ } }) := by
  rw [typeOfSimple, run_get_bind, h]
  rfl

theorem typeOfCall_none {function : String} (args : List (Ty × Position))
    (h : s.functions.find? function = none) : (typeOfCall node function args).run s =
      (.error, ((report (.undefinedName .function function) node.span.start).run s).2) := by
  rw [typeOfCall, run_get_bind, h]
  rfl

theorem typeOfCall_some (node : Node) {function : String} {entry : FunBinding}
    (args : List (Ty × Position)) (hs : AllResolved s.types) (h : s.functions.find? function = some entry) :
    Checker.Reports { s with facts := { s.facts with
      calls := s.facts.calls.insert node.id entry.target } }
      ((typeOfCall node function args).run s).2 := by
  have hargs : OnlyReports (checkArgs entry.params args >>= fun _ => pure entry.result) :=
    (checkArgs_onlyReports _ _).bind fun _ => .pure _
  have hrest : OnlyReports (if entry.params.length ≠ args.length then
      report (.arityMismatch entry.params.length args.length) node.span.start >>= fun _ =>
        checkArgs entry.params args >>= fun _ => pure entry.result
      else checkArgs entry.params args >>= fun _ => pure entry.result) := by
    split
    · exact .report_then _ _ hargs
    · exact hargs
  rw [typeOfCall, run_get_bind, h]
  exact hrest { s with facts := { s.facts with
    calls := s.facts.calls.insert node.id entry.target } } hs

theorem mem_diagnostics_report (cause : Cause) (position : Position) (s : Checker) :
    ⟨cause, position⟩ ∈ ((report cause position).run s).2.diagnostics :=
  Array.mem_push_self

end CheckM

theorem Later.mem_diagnostics {noted bound : List Nat} {s s' : Checker} (h : Later noted bound s s')
    {d : Diagnostic} (hd : d ∈ s.diagnostics) : d ∈ s'.diagnostics :=
  Array.mem_toList_iff.mp (h.diagnostics.subset (Array.mem_toList_iff.mpr hd))

namespace Visited
variable {log : List (Exp × Checker)} {around : List Surrounding} {node : Node} {name : String}
  {s s' : Checker}

theorem simple (h : Visited log ⟨around, .var (.simple node name)⟩ s s')
    (hs : s.facts.varUses[node.id]? = none) :
    ∃ entry : Option VarBinding, VarFound s' around (binder? around name) entry ∧
      match entry with
      | none => s'.facts.varUses[node.id]? = none ∧
          ⟨.undefinedName .variable name, node.span.start⟩ ∈ s'.diagnostics
      | some entry => ∃ frame f, frameOf? s'.facts around = some frame ∧
          s'.frames.frames[frame]? = some f ∧
          s'.facts.varUses[node.id]? = some ⟨entry.slot, f.level⟩ := by
  obtain ⟨t, -, ht, -, -, hagree, hlater⟩ := h
  have hnode : node.id ∈ (Part.var (.simple node name)).ids := List.mem_cons_self
  have hnote : Later [] (surroundIds around) ((CheckM.typeOfSimple node name).run t).2
      ((CheckM.inferVar (.simple node name)).run t).2 :=
    .noteVar List.not_mem_nil (CheckM.typeOfSimple node name)
  have hend := hnote.trans (hlater.mono (List.nil_subset _) (List.Subset.refl _))
  have huses : s'.facts.varUses[node.id]? =
      ((CheckM.typeOfSimple node name).run t).2.facts.varUses[node.id]? :=
    (hlater.facts node.id hnode).varUses
  have hstart : Later [] (surroundIds around) t ((CheckM.typeOfSimple node name).run t).2 := by
    cases hfind : t.vars.find? name with
    | none =>
      rw [CheckM.typeOfSimple_none hfind]
      exact .of_reports (.report t _ _)
    | some entry =>
      rw [CheckM.typeOfSimple_some hfind]
      exact ⟨fun {_ f} hf => ⟨f, hf, .refl f⟩, List.prefix_rfl, by simp, fun _ _ => rfl,
        fun _ _ => rfl, List.prefix_rfl⟩
  have hfound := (ht.stack.later (hstart.trans hend) (List.Subset.refl _)).varFound name
  rw [← Scopes.find?_of_root_nil ht.vars] at hfound
  refine ⟨_, hfound, ?_⟩
  cases hfind : t.vars.find? name with
  | none =>
    rw [CheckM.typeOfSimple_none hfind] at huses hend
    exact ⟨huses.trans ((hagree node.id hnode).varUses.trans hs),
      hend.mem_diagnostics (CheckM.mem_diagnostics_report _ _ t)⟩
  | some entry =>
    obtain ⟨hframe, f, hf, hlevel⟩ := ht.current
    obtain ⟨f', hf', hgrows⟩ := (hstart.trans hend).frames hf
    refine ⟨_, f', (hstart.trans hend).frameOf? (List.Subset.refl _) hframe, hf', ?_⟩
    rw [huses, CheckM.typeOfSimple_some hfind, hgrows.level, ← hlevel]
    exact NodeMap.getElem?_insert_self _ _ _

theorem call {args : List Exp} (h : Visited log ⟨around, .exp (.call node name args)⟩ s s')
    (hs : s.facts.calls[node.id]? = none) :
    ∃ entry : Option FunBinding, FunFound s' around (callee? around name) entry ∧
      match entry.or (Checker.libraryFunctions.root.value? name) with
      | none => s'.facts.calls[node.id]? = none ∧
          ⟨.undefinedName .function name, node.span.start⟩ ∈ s'.diagnostics
      | some entry => s'.facts.calls[node.id]? = some entry.target := by
  obtain ⟨t, -, ht, hresolved, hfresh, hagree, hlater⟩ := h
  have hnode : node.id ∈ (Part.exp (.call node name args)).ids := List.mem_cons_self
  have hargs := CheckM.inferExps_keeps args t hresolved
  have ht₁ : Situated around ((CheckM.inferExps args).run t).2 :=
    ht.keeps hargs fun id hid htouched => hfresh.new id (List.mem_cons_of_mem _ htouched) hid
  have hcalls := (hargs.grows.facts (List.nodup_cons.mp hfresh.nodup).1).calls
  set r := (CheckM.inferExps args).run t
  have hresolved₁ : AllResolved r.2.types := hargs.resolved hresolved
  have hnote : Later [] (surroundIds around) ((CheckM.typeOfCall node name r.1).run r.2).2
      ((CheckM.inferExp (.call node name args)).run t).2 :=
    .noteExp List.not_mem_nil (CheckM.inferExps args >>= CheckM.typeOfCall node name)
  have hend := hnote.trans (hlater.mono (List.nil_subset _) (List.Subset.refl _))
  have hcalls' : s'.facts.calls[node.id]? =
      ((CheckM.typeOfCall node name r.1).run r.2).2.facts.calls[node.id]? :=
    (hlater.facts node.id hnode).calls
  have hstart : Later [] (surroundIds around) r.2 ((CheckM.typeOfCall node name r.1).run r.2).2 := by
    cases hfind : r.2.functions.find? name with
    | none =>
      rw [CheckM.typeOfCall_none _ hfind]
      exact .of_reports (.report r.2 _ _)
    | some entry =>
      refine Later.trans ?_ (.of_reports (CheckM.typeOfCall_some node _ hresolved₁ hfind))
      exact ⟨fun {_ f} hf => ⟨f, hf, .refl f⟩, List.prefix_rfl, by simp, fun _ _ => rfl,
        fun _ _ => rfl, List.prefix_rfl⟩
  refine ⟨_, (ht₁.stack.later (hstart.trans hend) (List.Subset.refl _)).funFound name, ?_⟩
  rw [← ht₁.functions, ← Scopes.find?_eq_or]
  cases hfind : r.2.functions.find? name with
  | none =>
    rw [CheckM.typeOfCall_none _ hfind] at hcalls' hend
    exact ⟨hcalls'.trans (hcalls.trans ((hagree node.id hnode).calls.trans hs)),
      hend.mem_diagnostics (CheckM.mem_diagnostics_report _ _ r.2)⟩
  | some entry =>
    have hsame := (CheckM.typeOfCall_some node r.1 hresolved₁ hfind).same
    rw [hcalls', hsame]
    exact NodeMap.getElem?_insert_self _ _ _

end Visited

end TigerLang
