import TigerLang.Proofs.Situated
import TigerLang.Proofs.TrackedRules
import TigerLang.Proofs.TrackedTypes

/-! Variables, loops, functions and blocks side by side. What is done in a scope of its own may be
followed by anything that is tracked, and a block is tracked when what comes after its headings is. -/

namespace TigerLang

theorem AllResolved.leave {types : Scopes TypeBinding} (h : AllResolved types) :
    AllResolved types.leave := by
  intro scope hscope
  apply h
  rcases List.mem_append.mp hscope with hinner | hroot
  · exact List.mem_append_left _ (List.mem_of_mem_tail hinner)
  · exact List.mem_append_right _ hroot

def Bridge.declare (β : Bridge) (id : Nat) : Bridge := { β with declared := id :: β.declared }

theorem Bridge.le_declare (β : Bridge) (id : Nat) : β.Le (β.declare id) :=
  ⟨List.prefix_rfl, List.prefix_rfl, List.subset_cons_self _ _, fun hmet => hmet⟩

theorem getElem?_push_of_some {α : Type} {xs : Array α} {i : Nat} {a : α} (h : xs[i]? = some a)
    (b : α) : (xs.push b)[i]? = some a := by
  obtain ⟨hlt, -⟩ := Array.getElem?_eq_some_iff.mp h
  rw [Array.getElem?_push, if_neg (Nat.ne_of_lt hlt), h]

namespace Checker.Alike
variable {m : Mistake} {β : Bridge} {s s' : Checker}

theorem entered (h : s.Alike m β s') : s.entered.Alike m β s'.entered :=
  ⟨h.registry, h.types.enter, h.vars.enter, h.functions.enter, h.loopDepth, h.routines, h.declared,
    h.unbound.enter⟩

theorem left (h : s.Alike m β s') : s.left.Alike m β s'.left :=
  ⟨h.registry, h.types.leave, h.vars.leave, h.functions.leave, h.loopDepth, h.routines, h.declared,
    h.unbound.leave⟩

theorem withDepth (h : s.Alike m β s') {depth depth' : Nat} (hdepth : depth' = depth)
    (frames frames' : Frames) : Checker.Alike m β { s with frames, loopDepth := depth }
      { s' with frames := frames', loopDepth := depth' } :=
  ⟨h.registry, h.types, h.vars, h.functions, hdepth, h.routines, h.declared, h.unbound⟩

theorem withVars (h : s.Alike m β s') {vars vars' : Scopes VarBinding}
    (hvars : vars.Rel (VarBinding.Alike β) vars') (hunbound : vars'.Lacks m.name) :
    Checker.Alike m β { s with vars } { s' with vars := vars' } :=
  ⟨h.registry, h.types, hvars, h.functions, h.loopDepth, h.routines, h.declared, hunbound⟩

theorem withFunction (h : s.Alike m β s') (node : Node) (name : String) {params params' : List Ty}
    {result result' : Ty} (hsignature : SignaturesAlike β params params' result result') :
    ((s.withFunction node name params result).bindFunction name
      ⟨params, result, .user s.facts.functions.size⟩).Alike m (β.declare node.id)
      ((s'.withFunction node name params' result').bindFunction name
        ⟨params', result', .user s'.facts.functions.size⟩) := by
  have hle := β.le_declare node.id
  have hregistry := h.registry.met hle rfl rfl
  have htypes := h.types.imp fun _ _ hentry => hentry.mono hle
  have hvars := h.vars.imp fun _ _ hentry => hentry.mono hle
  have hnew : FunBinding.Alike (β.declare node.id) ⟨params, result, .user s.facts.functions.size⟩
    ⟨params', result', .user s'.facts.functions.size⟩ := hsignature.mono hle
  have hfunctions := (h.functions.imp fun _ _ hentry => hentry.mono hle).bind name hnew
  refine ⟨hregistry, htypes, hvars, hfunctions, h.loopDepth, ?_, ?_, h.unbound⟩
  · intro id hid
    change Option.Rel _ (s.facts.routineOf.insert node.id s.facts.functions.size)[id]?
      (s'.facts.routineOf.insert node.id s'.facts.functions.size)[id]?
    by_cases heq : id = node.id
    · subst heq
      rw [NodeMap.getElem?_insert_self, NodeMap.getElem?_insert_self]
      exact .some ⟨_, _, Array.getElem?_push_size, Array.getElem?_push_size, hsignature.mono hle⟩
    · rw [NodeMap.getElem?_insert_of_ne _ heq, NodeMap.getElem?_insert_of_ne _ heq]
      refine rel_imp (h.routines hid) fun ⟨a, b, ha, hb, hroutine⟩ => ?_
      exact ⟨a, b, getElem?_push_of_some ha _, getElem?_push_of_some hb _, hroutine.mono hle⟩
  · intro id hid
    change ((s'.facts.routineOf.insert node.id s'.facts.functions.size)[id]?).isSome
    by_cases heq : id = node.id
    · subst heq
      rw [NodeMap.getElem?_insert_self]
      rfl
    · rw [NodeMap.getElem?_insert_of_ne _ heq]
      exact h.declared id ((List.mem_cons.mp hid).resolve_left heq)

end Checker.Alike

def CheckM.functionBody (info : Routine) (params : List Field) (result : Option String)
    (body : Exp) : CheckM Unit :=
  inFunction info.frame do
    inScope do
      declareParams params info.params
      let bodyType ← inferExp body
      let expected := if result.isSome then info.result else .void
      discard (require expected bodyType body.start)

namespace Mistake.Tracks
variable {α α' : Type} {m : Mistake} {expected : List Diagnostic} {pre : Bridge → Prop}

section around
variable {x : CheckM α} {y : CheckM α'} {post : Bridge → α → α' → Prop}

theorem inLoop (h : m.Tracks AllResolved expected pre x y post) :
    m.Tracks AllResolved expected pre (CheckM.inLoop x) (CheckM.inLoop y) post := by
  refine ⟨fun s hs => h.adds { s with loopDepth := s.loopDepth + 1 } hs,
    fun {β s s'} hs hinv hpre hsize => ?_⟩
  have hs₁ := hs.withDepth (congrArg (· + 1) hs.loopDepth) s.frames s'.frames
  obtain ⟨β', new, hβ, hend, hpost, hnew, hexplains⟩ := h.quiet hs₁ hinv hpre hsize
  exact ⟨β', new, hβ, hend.withDepth (congrArg (· - 1) hend.loopDepth) _ _, hpost, hnew, hexplains⟩

theorem inScope (h : m.Tracks AllResolved expected pre x y post) :
    m.Tracks AllResolved expected pre (CheckM.inScope x) (CheckM.inScope y) post := by
  have hentered : ∀ {s : Checker}, AllResolved s.types → AllResolved s.entered.types :=
    fun hs => hs.within (by simp)
  constructor
  · intro s hs
    obtain ⟨hinv, hle⟩ := h.adds s.entered (hentered hs)
    exact ⟨hinv.leave, hle⟩
  · intro β s s' hs hinv hpre hsize
    obtain ⟨β', new, hβ, hend, hpost, hnew, hexplains⟩ :=
      h.quiet hs.entered (hentered hinv) hpre hsize
    exact ⟨β', new, hβ, hend.left, hpost, hnew, hexplains⟩

theorem withLoopVar (node : Node) {name : String} (hname : name ≠ m.name)
    (h : m.Tracks AllResolved expected pre x y post) :
    m.Tracks AllResolved expected pre (CheckM.withLoopVar node name x)
      (CheckM.withLoopVar node name y) post := by
  refine ⟨fun s hs => h.adds (Situated.loopEntered s node name) hs,
    fun {β s s'} hs hinv hpre hsize => ?_⟩
  have hentry : VarBinding.Alike β
      ⟨.int, ((CheckM.reserve .int).run { s with vars := s.vars.enter }).1, true⟩
      ⟨.int, ((CheckM.reserve .int).run { s' with vars := s'.vars.enter }).1, true⟩ :=
    ⟨⟨.same .int, by simp⟩, rfl⟩
  have hvars := hs.vars.enter.bind name hentry
  have hs₁ : (Situated.loopEntered s node name).Alike m β (Situated.loopEntered s' node name) :=
    (hs.withVars hvars (hs.unbound.enter.bind hname _)).congr ⟨rfl, rfl, rfl, rfl, rfl, rfl, rfl⟩
      ⟨rfl, rfl, rfl, rfl, rfl, rfl, rfl⟩
  obtain ⟨β', new, hβ, hend, hpost, hnew, hexplains⟩ := h.quiet hs₁ hinv hpre hsize
  exact ⟨β', new, hβ, hend.withVars hend.vars.leave hend.unbound.leave, hpost, hnew, hexplains⟩

theorem inFunction {x y : CheckM Unit} {post : Bridge → Unit → Unit → Prop} (frame frame' : Nat)
    (h : m.Tracks AllResolved expected pre x y post) :
    m.Tracks AllResolved expected pre (CheckM.inFunction frame x) (CheckM.inFunction frame' y)
      post := by
  constructor
  · intro s hs
    obtain ⟨hinv, hle⟩ := h.adds { s with frames := s.frames.enter frame, loopDepth := 0 } hs
    obtain ⟨hreports, hdiagnostics⟩ := CheckM.inFunction_reports frame x s
    rw [hdiagnostics, hreports.types]
    exact ⟨hinv, hle⟩
  · intro β s s' hs hinv hpre hsize
    obtain ⟨hreports, hdiagnostics⟩ := CheckM.inFunction_reports frame x s
    obtain ⟨hreports', hdiagnostics'⟩ := CheckM.inFunction_reports frame' y s'
    rw [hdiagnostics] at hsize
    have hs₁ := hs.withDepth (rfl : 0 = 0) (s.frames.enter frame) (s'.frames.enter frame')
    obtain ⟨β', new, hβ, hend, hpost, hnew, hexplains⟩ := h.quiet hs₁ hinv hpre hsize
    refine ⟨β', new, hβ, ?_, hpost, hdiagnostics' ▸ hnew, hexplains⟩
    exact (hend.withDepth hs.loopDepth _ _).congr (.of_reports hreports) (.of_reports hreports')

end around

section notes
variable {x y : CheckM Ty} {post : Bridge → Ty → Ty → Prop}

theorem noteExp (node node' : Node) (h : m.Tracks AllResolved expected pre x y post) :
    m.Tracks AllResolved expected pre (CheckM.noteExp node x) (CheckM.noteExp node' y) post := by
  refine h.bind_silent fun ty ty' => ?_
  refine andThen (learn (fun _ => ⟨rfl, rfl⟩) fun _ => ⟨rfl, rfl⟩) fun _ _ => ?_
  exact pure fun _ hpost => hpost

theorem noteVar (node node' : Node) (h : m.Tracks AllResolved expected pre x y post) :
    m.Tracks AllResolved expected pre (CheckM.noteVar node x) (CheckM.noteVar node' y) post := by
  refine h.bind_silent fun ty ty' => ?_
  refine andThen (learn (fun _ => ⟨rfl, rfl⟩) fun _ => ⟨rfl, rfl⟩) fun _ _ => ?_
  exact pure fun _ hpost => hpost

end notes

section bindings
variable {name : String}

theorem defineVar (hname : name ≠ m.name) {entry entry' : VarBinding}
    (hentry : ∀ β, pre β → entry.Alike β entry') (position : Position) :
    m.Tracks AllResolved [] pre (CheckM.defineVar name entry position)
      (CheckM.defineVar name entry' position) fun β _ _ => pre β := by
  constructor
  · refine .get fun s => ?_
    split
    · exact .report _ _
    · exact fun _ hs => ⟨hs, Nat.le_refl _⟩
  · intro β s s' hs hinv hpre hsize
    rw [CheckM.defineVar_run] at hsize ⊢
    rw [CheckM.defineVar_run, hs.vars.hasHere]
    by_cases hhere : s.vars.hasHere name = true
    · rw [if_pos hhere] at hsize
      exact absurd hsize (CheckM.size_report_ne _ _ s)
    · rw [if_neg hhere, if_neg hhere]
      have hvars := hs.vars.bind name (hentry β hpre)
      exact ⟨β, [], .refl β, hs.withVars hvars (hs.unbound.bind hname _), hpre,
        (List.append_nil _).symm, .nothing rfl⟩

theorem declareVar (node : Node) (hname : name ≠ m.name) {ty ty' : Ty}
    (hty : ∀ β, pre β → ty.Known β ty') :
    m.Tracks AllResolved [] pre (CheckM.declareVar node name ty) (CheckM.declareVar node name ty')
      fun β _ _ => pre β := by
  have hreserve : m.Tracks AllResolved [] pre (CheckM.reserve ty) (CheckM.reserve ty')
      fun β _ _ => pre β :=
    unnoticed (fun _ => ⟨⟨rfl, rfl, rfl, rfl, rfl, rfl, rfl⟩, rfl⟩)
      fun _ => ⟨⟨rfl, rfl, rfl, rfl, rfl, rfl, rfl⟩, rfl⟩
  refine hreserve.andThen fun slot slot' => ?_
  refine andThen (learn (fun _ => ⟨rfl, rfl⟩) fun _ => ⟨rfl, rfl⟩) fun _ _ => ?_
  have hentry : ∀ β, pre β → VarBinding.Alike β ⟨ty, slot, false⟩ ⟨ty', slot', false⟩ :=
    fun β hpre => ⟨hty β hpre, rfl⟩
  exact defineVar hname hentry node.span.start

theorem declareParams {β₀ : Bridge} {types types' : List Ty}
    (htypes : List.Forall₂ (Ty.Kept β₀) types types') (params : List Field)
    (hnames : ∀ param ∈ params, param.name ≠ m.name) :
    m.Tracks AllResolved [] β₀.Le (CheckM.declareParams params types)
      (CheckM.declareParams params types') fun β _ _ => β₀.Le β := by
  induction htypes generalizing params with
  | nil =>
    cases params with
    | nil => exact pure fun _ hle => hle
    | cons param params => exact pure fun _ hle => hle
  | cons hty htypes ih =>
    cases params with
    | nil => exact pure fun _ hle => hle
    | cons param params =>
      obtain ⟨hname, hrest⟩ := List.forall_mem_cons.mp hnames
      refine (declareVar param.node hname fun _ hle => (hty.mono hle).known).andThen fun _ _ => ?_
      exact ih params hrest

end bindings

section headings

theorem paramTypes (params : List Field) :
    m.Tracks AllResolved [] (fun _ => True) (CheckM.paramTypes params) (CheckM.paramTypes params)
      fun β types types' => List.Forall₂ (Ty.Kept β) types types' := by
  unfold CheckM.paramTypes
  induction params with
  | nil => exact pure fun _ _ => .nil
  | cons param params ih =>
    rw [List.mapM_cons]
    refine (typeNamed param.typeName _ _).andThen fun ty ty' => ?_
    have hpersistent : Persistent fun β => ty.Kept β ty' := fun _ _ hle hty => hty.mono hle
    refine (ih.frame hpersistent).andThen fun types types' => ?_
    exact pure fun _ h => .cons h.2 h.1

theorem resultType (node : Node) (result : Option String) :
    m.Tracks AllResolved [] pre (CheckM.resultType node result) (CheckM.resultType node result)
      fun β ty ty' => pre β ∧ ty.Kept β ty' := by
  cases result with
  | none => exact pure fun _ hpre => ⟨hpre, .void, by simp⟩
  | some result => exact typeNamed result _ _

theorem enterFunction (node : Node) (name : String) {params params' : List Ty} {result result' : Ty}
    (hsignature : ∀ β, pre β → SignaturesAlike β params params' result result') :
    m.Tracks AllResolved [] pre (CheckM.enterFunction node name params result)
      (CheckM.enterFunction node name params' result') fun β _ _ => node.id ∈ β.declared := by
  constructor
  · intro s hs
    rw [CheckM.enterFunction_run]
    split
    · exact Adds.report _ _ (s.withFunction node name params result) hs
    · exact ⟨hs, Nat.le_refl _⟩
  · intro β s s' hs hinv hpre hsize
    rw [CheckM.enterFunction_run] at hsize ⊢
    rw [CheckM.enterFunction_run, hs.functions.hasHere]
    by_cases hhere : s.functions.hasHere name = true
    · rw [if_pos hhere] at hsize
      exact absurd hsize (CheckM.size_report_ne _ _ (s.withFunction node name params result))
    · rw [if_neg hhere, if_neg hhere]
      have hend := hs.withFunction node name (hsignature β hpre)
      exact ⟨β.declare node.id, [], β.le_declare node.id, hend, List.mem_cons_self,
        (List.append_nil _).symm, .nothing rfl⟩

theorem declareHeading (node : Node) (name : String) (params : List Field)
    (result : Option String) :
    m.Tracks AllResolved [] (fun _ => True) (CheckM.declareHeading node name params result)
      (CheckM.declareHeading node name params result) fun β _ _ => node.id ∈ β.declared := by
  rw [CheckM.declareHeading_eq]
  refine (paramTypes params).andThen fun types types' => ?_
  refine (resultType node result).andThen fun ty ty' => ?_
  exact enterFunction node name fun _ h => ⟨h.1, h.2⟩

def Declared (decs : List Dec) (β : Bridge) : Prop := ∀ id ∈ functionIds decs, id ∈ β.declared

theorem persistent_declared (decs : List Dec) : Persistent (Declared decs) :=
  fun _ _ hle h id hid => hle.declared (h id hid)

theorem declareHeadings (decs : List Dec) :
    m.Tracks AllResolved [] (fun _ => True) (CheckM.declareHeadings decs)
      (CheckM.declareHeadings decs) fun β _ _ => Declared decs β := by
  induction decs with
  | nil => exact pure fun _ _ => by simp [Declared]
  | cons d decs ih =>
    cases d with
    | var node name typeName init => exact ih
    | type node name definition => exact ih
    | function node name params result body =>
      refine (declareHeading node name params result).andThen fun _ _ => ?_
      have hpersistent : Persistent fun β => node.id ∈ β.declared :=
        fun _ _ hle hid => hle.declared hid
      refine (ih.carry hpersistent).conseq (fun _ h => h) fun β _ _ h => ?_
      unfold Declared
      rw [functionIds_function]
      exact List.forall_mem_cons.mpr ⟨h.2, h.1⟩

end headings

section blocks

theorem functionBody {β₀ : Bridge} {info info' : Routine} (hinfo : info.Alike β₀ info')
    {params : List Field} (hnames : ∀ param ∈ params, param.name ≠ m.name) (result : Option String)
    {body body' : Exp} {ends : Bool}
    (hbody : m.Tracks AllResolved expected (fun _ => True) (CheckM.inferExp body)
      (CheckM.inferExp body') (m.Typed ends)) :
    m.Tracks AllResolved expected β₀.Le (CheckM.functionBody info params result body)
      (CheckM.functionBody info' params result body') fun _ _ _ => True := by
  have hresult : ∀ β, β₀.Le β → (if result.isSome then info.result else .void).Follows m.lossless β
      (if result.isSome then info'.result else .void) := by
    intro β hle
    split
    · exact .same (hinfo.result.same.mono hle)
    · exact .same .void
  have hbody' := hbody.carry β₀.persistent_le
  apply inFunction
  apply inScope
  refine (declareParams hinfo.params params hnames).andThen fun _ _ => ?_
  refine hbody'.bind_silent fun ty ty' => ?_
  exact (require (fun β h => hresult β h.2) (fun _ h => h.1.follows) _ _).discard
    fun _ _ _ _ => trivial

theorem checkFunction {id : Nat} (hid : id ∉ m.old.ids) {params : List Field}
    (hnames : ∀ param ∈ params, param.name ≠ m.name) (result : Option String) {body body' : Exp}
    {ends : Bool} (hbody : m.Tracks AllResolved expected (fun _ => True) (CheckM.inferExp body)
      (CheckM.inferExp body') (m.Typed ends)) :
    m.Tracks AllResolved expected (fun β => id ∈ β.declared)
      (CheckM.checkFunction id params result body) (CheckM.checkFunction id params result body')
      fun _ _ _ => True := by
  have hkeeps : Keeps (fun _ => True) (CheckM.inferExp body) :=
    (CheckM.inferExp_keeps body).mono fun _ _ => trivial
  have hadds : Adds AllResolved (CheckM.checkFunction id params result body) := by
    intro s hs
    obtain ⟨henv, hgrows⟩ : s.SameEnv _ ∧ s.Grows 0 0 (fun _ => True) _ :=
      CheckM.checkFunction_keeps result hs (Nat.zero_le _) (fun _ _ => Nat.zero_le _)
        (fun _ _ => trivial) hkeeps
    exact ⟨henv.types.symm ▸ hs, by simpa using hgrows.diagnostics.length_le⟩
  refine get hadds fun {β s s'} hs _ hdeclared => ?_
  have hsome := hs.declared id hdeclared
  obtain ⟨-, hnone⟩ | ⟨i, k, hi, hk, info, info', hinfo, hinfo', halike⟩ :=
    eq_or_of_rel (hs.routines hid)
  · -- A function that has been declared has its number.
    rw [hnone] at hsome
    cases hsome
  · have hroutine : s.facts.routine? id = some info := by
      rw [Facts.routine?, hi]
      exact hinfo
    have hroutine' : s'.facts.routine? id = some info' := by
      rw [Facts.routine?, hk]
      exact hinfo'
    rw [hroutine, hroutine']
    exact functionBody halike hnames result hbody

theorem block {α α' : Type} {decs : List Dec} {x : CheckM α} {y : CheckM α'}
    {post : Bridge → α → α' → Prop} (h : m.Tracks AllResolved expected (Declared decs) x y post) :
    m.Tracks AllResolved expected (fun _ => True)
      (CheckM.inScope do CheckM.declareBlock decs; x)
      (CheckM.inScope do CheckM.declareBlock decs; y) post := by
  have htypes : m.Tracks anyTypes [] (fun _ => True)
      (CheckM.declareTypes decs >>= CheckM.resolveTypes)
      (CheckM.declareTypes decs >>= CheckM.resolveTypes) fun _ _ _ => True := by
    refine (declareTypes decs).andThen fun names names' => ?_
    have hresolve : m.Tracks anyTypes [] (fun _ => True) (CheckM.resolveTypes names)
        (CheckM.resolveTypes names) fun _ _ _ => True := resolveTypes names
    refine of_forall hresolve.adds fun β hnames => ?_
    subst hnames
    exact hresolve.strengthen fun _ _ => trivial
  have hrest := (declareHeadings decs).andThen fun _ _ => h
  -- The type names are all known again when the headings are looked at.
  have hresolved : ∀ {s : Checker}, AllResolved s.types →
      AllResolved ((CheckM.declareTypes decs >>= CheckM.resolveTypes).run s.entered).2.types := by
    intro s hs
    have hworks : s.Works s.frames.frames.size (fun _ => True) s.entered _ :=
      CheckM.declareTypes_works hs decs
    exact hworks.inside.resolved
  constructor
  · intro s hs
    obtain ⟨-, hle⟩ := htypes.adds s.entered trivial
    obtain ⟨hinv, hle'⟩ := hrest.adds _ (hresolved hs)
    exact ⟨hinv.leave, hle.trans hle'⟩
  · intro β s s' hs hinv hpre hsize
    -- Neither half of the block reports anything, as both together do not.
    have hle := (htypes.adds s.entered trivial).2
    have hle' := (hrest.adds _ (hresolved hinv)).2
    have hsize₁ : ((CheckM.declareTypes decs >>= CheckM.resolveTypes).run
        s.entered).2.diagnostics.size = s.entered.diagnostics.size :=
      Nat.le_antisymm (hle'.trans hsize.le) hle
    obtain ⟨β₁, new₁, hβ₁, hs₁, -, hnew₁, hexplains₁⟩ :=
      htypes.quiet hs.entered trivial trivial hsize₁
    obtain ⟨β₂, new₂, hβ₂, hs₂, hpost, hnew₂, hexplains₂⟩ :=
      hrest.quiet hs₁ (hresolved hinv) trivial (hsize.trans hsize₁.symm)
    refine ⟨β₂, new₁ ++ new₂, hβ₁.trans hβ₂, hs₂.left, hpost, ?_, hexplains₁.append hexplains₂⟩
    have hend := hnew₂.trans (congrArg (· ++ new₂) hnew₁)
    rw [List.append_assoc] at hend
    exact hend

end blocks

end Mistake.Tracks

end TigerLang
