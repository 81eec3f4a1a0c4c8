import TigerLang.Proofs.Environment
import TigerLang.Proofs.Passage

/-! Types are well stored in every state of checking a program, whatever is wrong with it. Whenever
an expression is checked, all records are complete. -/

namespace TigerLang

namespace Trace
variable {α β : Type} {s s' : Checker}

/-- The state is on the way, at a moment when no types are being resolved. -/
def Passes {x : CheckM α} (t : Trace x) (s s' : Checker) : Prop := ⟨s', false⟩ ∈ t.moments s

namespace Passes
variable {x : CheckM α} {t : Trace x}

theorem first {f : α → CheckM β} {next : ∀ a, Trace (f a)} (h : t.Passes s s') :
    (t.bind next).Passes s s' := List.mem_append_left _ h

theorem next {f : α → CheckM β} {next : ∀ a, Trace (f a)}
    (h : (next (x.run s).1).Passes (x.run s).2 s') : (t.bind next).Passes s s' :=
  List.mem_append_right _ h

theorem observe (hx : Observes x) : (Trace.observe hx).Passes s s := List.mem_cons_self

theorem write (g : Checker → α × Checker) : (Trace.write g).Passes s s := List.mem_cons_self

theorem inScope (h : t.Passes s.entered s') : (Trace.inScope t).Passes s s' :=
  .next (.next (.next (.first h)))

theorem inLoop (h : t.Passes { s with loopDepth := s.loopDepth + 1 } s') :
    (Trace.inLoop t).Passes s s' := .next (.first h)

theorem withLoopVar {node : Node} {name : String}
    (h : t.Passes (Situated.loopEntered s node name) s') :
    (Trace.withLoopVar node name t).Passes s s' := .next (.next (.next (.next (.first h))))

theorem inFunction {frame : Nat} {x : CheckM Unit} {t : Trace x}
    (h : t.Passes { s with frames := s.frames.enter frame, loopDepth := 0 } s') :
    (Trace.inFunction frame t).Passes s s' := .next (.next (.first h))

theorem getThen {f : Checker → CheckM β} {next : ∀ a, Trace (f a)} (h : (next s).Passes s s') :
    (Trace.get.bind next).Passes s s' := .next h

end Passes

theorem typeNamed_starts (name : String) (position : Position) (s : Checker) :
    (typeNamed name position).Passes s s := .first (.observe _)

-- An expression is first checked in the state that its first part is.
mutual

theorem inferExp_starts : ∀ (e : Exp) (s : Checker), (inferExp e).Passes s s
  | .nil _, _ | .int _ _, _ | .str _ _, _ | .breakLoop _, _ => .first (.observe _)
  | .var _ target, s => .first (inferVar_starts target s)
  | .call _ _ args, s => .first (.first (inferExps_starts args s))
  | .binary _ _ left _, s => .first (.first (inferExp_starts left s))
  | .record _ _ _, s => .first (.first (typeNamed_starts _ _ s))
  | .seq _ exps, s => .first (.first (inferExps_starts exps s))
  | .assign _ target _, s => .first (.first (inferVar_starts target s))
  | .ifThen _ test _, s => .first (.first (inferExp_starts test s))
  | .ifThenElse _ test _ _, s => .first (.first (inferExp_starts test s))
  | .whileDo _ test _, s => .first (.first (inferExp_starts test s))
  | .forTo _ _ lo _ _, s => .first (.first (inferExp_starts lo s))
  | .letIn _ _ _, _ => .first (.first (.write _))
  | .array _ _ _ _, s => .first (.first (typeNamed_starts _ _ s))

theorem inferVar_starts : ∀ (v : Var) (s : Checker), (inferVar v).Passes s s
  | .simple _ _, _ => .first (.first (.observe _))
  | .field _ base _, s => .first (.first (inferVar_starts base s))
  | .subscript _ base _, s => .first (.first (inferVar_starts base s))

theorem inferExps_starts : ∀ (es : List Exp) (s : Checker), (inferExps es).Passes s s
  | [], _ => .observe _
  | e :: _, s => .first (inferExp_starts e s)

end

mutual

theorem inferExp_passes : ∀ (e : Exp) (s : Checker), ∀ c ∈ e.checks s, (inferExp e).Passes s c.2
  | .nil _, _ | .int _ _, _ | .str _ _, _ | .breakLoop _, _ => by
    rintro c hc
    obtain rfl := List.mem_singleton.mp hc
    exact inferExp_starts _ _
  | .var node target, s => by
    rw [Exp.checks, List.forall_mem_cons]
    exact ⟨inferExp_starts _ s, fun c hc => .first (inferVar_passes target s c hc)⟩
  | .call node function args, s => by
    rw [Exp.checks, List.forall_mem_cons]
    exact ⟨inferExp_starts _ s, fun c hc => .first (.first (inferExps_passes args s c hc))⟩
  | .binary node op left right, s => by
    rw [Exp.checks, List.forall_mem_cons, List.forall_mem_append]
    exact ⟨inferExp_starts _ s, fun c hc => .first (.first (inferExp_passes left s c hc)),
      fun c hc => .first (.next (.first (inferExp_passes right _ c hc)))⟩
  | .record node typeName fields, s => by
    rw [Exp.checks, List.forall_mem_cons]
    exact ⟨inferExp_starts _ s,
      fun c hc => .first (.next (.first (inferGiven_passes fields _ c hc)))⟩
  | .seq node exps, s => by
    rw [Exp.checks, List.forall_mem_cons]
    exact ⟨inferExp_starts _ s, fun c hc => .first (.first (inferExps_passes exps s c hc))⟩
  | .assign node target value, s => by
    rw [Exp.checks, List.forall_mem_cons, List.forall_mem_append]
    exact ⟨inferExp_starts _ s, fun c hc => .first (.first (inferVar_passes target s c hc)),
      fun c hc => .first (.next (.first (inferExp_passes value _ c hc)))⟩
  | .ifThen node test body, s => by
    rw [Exp.checks, List.forall_mem_cons, List.forall_mem_append]
    exact ⟨inferExp_starts _ s, fun c hc => .first (.first (inferExp_passes test s c hc)),
      fun c hc => .first (.next (.next (.first (inferExp_passes body _ c hc))))⟩
  | .ifThenElse node test yes no, s => by
    rw [Exp.checks, List.forall_mem_cons, List.forall_mem_append, List.forall_mem_append]
    exact ⟨inferExp_starts _ s, fun c hc => .first (.first (inferExp_passes test s c hc)),
      fun c hc => .first (.next (.next (.first (inferExp_passes yes _ c hc)))),
      fun c hc => .first (.next (.next (.next (.first (inferExp_passes no _ c hc)))))⟩
  | .whileDo node test body, s => by
    rw [Exp.checks, List.forall_mem_cons, List.forall_mem_append]
    exact ⟨inferExp_starts _ s, fun c hc => .first (.first (inferExp_passes test s c hc)),
      fun c hc => .first (.next (.next (.first (.inLoop (inferExp_passes body _ c hc)))))⟩
  | .forTo node name lo hi body, s => by
    rw [Exp.checks, List.forall_mem_cons, List.forall_mem_append, List.forall_mem_append]
    exact ⟨inferExp_starts _ s, fun c hc => .first (.first (inferExp_passes lo s c hc)),
      fun c hc => .first (.next (.next (.first (inferExp_passes hi _ c hc)))),
      fun c hc => .first (.next (.next (.next (.next (.first
        (.withLoopVar (.inLoop (inferExp_passes body _ c hc))))))))⟩
  | .letIn node decs body, s => by
    rw [Exp.checks, List.forall_mem_cons, List.forall_mem_append]
    exact ⟨inferExp_starts _ s,
      fun c hc => .first (.inScope (.next (.first (checkBodies_passes decs _ c hc)))),
      fun c hc => .first (.inScope (.next (.next (inferExp_passes body _ c hc))))⟩
  | .array node typeName size init, s => by
    rw [Exp.checks, List.forall_mem_cons, List.forall_mem_append]
    exact ⟨inferExp_starts _ s, fun c hc => .first (.next (.first (inferExp_passes size _ c hc))),
      fun c hc => .first (.next (.next (.next (.first (inferExp_passes init _ c hc)))))⟩

theorem inferVar_passes : ∀ (v : Var) (s : Checker), ∀ c ∈ v.checks s, (inferVar v).Passes s c.2
  | .simple _ _, _ => by simp [Var.checks]
  | .field _ base _, s => fun c hc => .first (.first (inferVar_passes base s c hc))
  | .subscript _ base index, s => by
    rw [Var.checks, List.forall_mem_append]
    exact ⟨fun c hc => .first (.first (inferVar_passes base s c hc)),
      fun c hc => .first (.next (.first (inferExp_passes index _ c hc)))⟩

theorem inferExps_passes : ∀ (es : List Exp) (s : Checker), ∀ c ∈ Exp.checksList es s,
    (inferExps es).Passes s c.2
  | [], _ => by simp [Exp.checksList]
  | e :: es, s => by
    rw [Exp.checksList, List.forall_mem_append]
    exact ⟨fun c hc => .first (inferExp_passes e s c hc),
      fun c hc => .next (.first (inferExps_passes es _ c hc))⟩

theorem inferGiven_passes : ∀ (fields : List FieldExp) (s : Checker),
    ∀ c ∈ FieldExp.checksList fields s, (inferGiven fields).Passes s c.2
  | [], _ => by simp [FieldExp.checksList]
  | .mk _ _ value :: fields, s => by
    rw [FieldExp.checksList, List.forall_mem_append]
    exact ⟨fun c hc => .first (inferExp_passes value s c hc),
      fun c hc => .next (.first (inferGiven_passes fields _ c hc))⟩

theorem checkBodies_passes : ∀ (decs : List Dec) (s : Checker), ∀ c ∈ Dec.checksList decs s,
    (checkBodies decs).Passes s c.2
  | [], _ => by simp [Dec.checksList]
  | .var node name typeName init :: decs, s => by
    rw [Dec.checksList, List.forall_mem_append]
    exact ⟨fun c hc => .first (inferExp_passes init s c hc),
      fun c hc => .next (.next (.next (checkBodies_passes decs _ c hc)))⟩
  | .type _ _ _ :: decs, s => fun c hc => checkBodies_passes decs s c hc
  | .function node name params result body :: decs, s => by
    have hafter : s.afterDec (.function node name params result body) =
        ((CheckM.checkFunction node.id params result body).run s).2 := by
      unfold Checker.afterDec
      rw [CheckM.checkBodies_function]
      rfl
    rw [Dec.checksList, List.forall_mem_append, hafter, CheckM.checkFunction, CheckM.run_get_bind]
    constructor
    · intro c hc
      apply Passes.getThen
      cases hroutine : s.facts.routine? node.id with
      | none =>
        rw [hroutine] at hc
        cases hc
      | some info =>
        rw [hroutine] at hc
        exact .first (.inFunction (.inScope (.next (.first (inferExp_passes body _ c hc)))))
    · intro c hc
      apply Passes.getThen
      cases hroutine : s.facts.routine? node.id with
      | none =>
        rw [hroutine] at hc
        exact checkBodies_passes decs _ c hc
      | some info =>
        rw [hroutine] at hc
        exact .next (checkBodies_passes decs _ c hc)

end

end Trace

theorem check_passes (e : Exp) : (Trace.checkProgram e).Passes .initial (check e) :=
  .next (.next (.next (.next (.observe _))))

/-- In every state that checking a program passes through, from the first to the last, types are
well stored, and so going from arrays to their elements comes to an end. Records are complete except
while the types of a block are resolved, and therefore whenever an expression is checked. -/
theorem checkProgram_wellStored (e : Exp) :
    let moments := (Trace.checkProgram e).moments .initial
    (moments.head?.map Moment.state = some .initial ∧
      moments.getLast?.map Moment.state = some (check e)) ∧
    (∀ m ∈ moments, m.state.WellStored ∧
      (WellFounded fun element ty => m.state.registry.element? ty = some element) ∧
      (m.resolving = false → m.state.registry.Complete)) ∧
    ∀ c ∈ e.checks .initial, c.2.WellStored ∧ c.2.registry.Complete := by
  intro moments
  have hfit : ∀ m ∈ moments, m.state.Fit (m.resolving = false) :=
    fun m hm => ((Trace.checkProgram_holds e (Checker.fit_initial True)).moments m hm).mono
      fun hresolving => ⟨trivial, hresolving⟩
  refine ⟨⟨Trace.head_moments _ _, Trace.getLast_moments _ _⟩, fun m hm => ?_, fun c hc => ?_⟩
  · have hm' := hfit m hm
    exact ⟨hm'.stored, hm'.stored.registry.wellFounded_element?, fun h => (hm'.settled h).2⟩
  · have hc' := hfit ⟨c.2, false⟩ (Trace.Passes.first (Trace.inferExp_passes e .initial c hc))
    exact ⟨hc'.stored, (hc'.settled rfl).2⟩

theorem checkProgram_wellStored_forest :
    let e : Exp := .letIn default
      [.type default "tree" (.record default
          [⟨default, "key", "int"⟩, ⟨default, "below", "forest"⟩]),
        .type default "forest" (.array default "tree")] (.nil default)
    (((Trace.checkProgram e).moments .initial).any fun m =>
        m.resolving && m.state.registry.records.any fun record => !record.complete) = true ∧
      (check e).registry.arrays.size = 1 ∧ (check e).WellStored ∧ (check e).registry.Complete ∧
      (e.checks .initial).length = 2 ∧ ∀ c ∈ e.checks .initial, c.2.registry.Complete := by
  intro e
  obtain ⟨-, hmoments, hchecks⟩ := checkProgram_wellStored e
  obtain ⟨hstored, -, hcomplete⟩ := hmoments _ (check_passes e)
  exact ⟨by decide +kernel, by decide +kernel, hstored, hcomplete rfl, rfl,
    fun c hc => (hchecks c hc).2⟩

end TigerLang
