import Mathlib.Data.List.Basic
import TigerLang.Proofs.Renaming
import TigerLang.Typing.Headings
import TigerLang.Typing.Rules
import TigerLang.Typing.Variables

/-! Checking with other names, side by side. From states that differ by a renaming alone, an action
and the same action with the names renamed lead to such states again, with the same result. -/

namespace TigerLang

/-- Two checkers have found the same. Reports have the same headings and places, the facts about
each node agree, and so do all functions, frames and types. Of names only those of types are
compared, which differ by the renaming. -/
structure Checker.SameFindings (r : Renaming) (s s' : Checker) : Prop where
  reports : s'.diagnostics.map Diagnostic.brief = s.diagnostics.map Diagnostic.brief
  facts : s'.facts.unnamed = s.facts.unnamed
  frames : s'.frames.unnamed = s.frames.unnamed
  registry : s'.registry = s.registry.rename r.types

structure Checker.Renamed (r : Renaming) (s s' : Checker) : Prop extends s.SameFindings r s' where
  types : s'.types = s.types.rename r.types (TypeBinding.rename r)
  vars : s'.vars = s.vars.rename r.vars id
  functions : s'.functions = s.functions.rename r.functions id
  loopDepth : s'.loopDepth = s.loopDepth

namespace Checker.Renamed
variable {r : Renaming} {s s' : Checker} (h : s.Renamed r s') (name : String)
include h

theorem find?_types :
    s'.types.find? (r.types name) = (s.types.find? name).map (TypeBinding.rename r) := by
  rw [h.types, Scopes.find?_rename _ _ r.types_injective]

theorem find?_vars : s'.vars.find? (r.vars name) = s.vars.find? name := by
  rw [h.vars, Scopes.find?_rename _ _ r.vars_injective, Option.map_id_fun, id]

theorem find?_functions : s'.functions.find? (r.functions name) = s.functions.find? name := by
  rw [h.functions, Scopes.find?_rename _ _ r.functions_injective, Option.map_id_fun, id]

theorem hasHere_types : s'.types.hasHere (r.types name) = s.types.hasHere name := by
  rw [h.types, Scopes.hasHere_rename _ _ r.types_injective]

theorem hasHere_vars : s'.vars.hasHere (r.vars name) = s.vars.hasHere name := by
  rw [h.vars, Scopes.hasHere_rename _ _ r.vars_injective]

theorem hasHere_functions : s'.functions.hasHere (r.functions name) = s.functions.hasHere name := by
  rw [h.functions, Scopes.hasHere_rename _ _ r.functions_injective]

omit name

theorem level : s'.frames.level = s.frames.level := by
  rw [← Frames.level_unnamed, h.frames, Frames.level_unnamed]

theorem routine? (id : Nat) :
    (s'.facts.routine? id).map Routine.unnamed = (s.facts.routine? id).map Routine.unnamed := by
  rw [← Facts.routine?_unnamed, h.facts, Facts.routine?_unnamed]

theorem routineOf : s'.facts.routineOf = s.facts.routineOf := (congrArg Facts.routineOf h.facts :)

theorem functions_size : s'.facts.functions.size = s.facts.functions.size := by
  have hsize := congrArg (fun a : Facts => a.functions.size) h.facts
  simpa [Facts.unnamed] using hsize

/-! One part of the state at a time, changed on both sides -/

theorem withTypes {types types' : Scopes TypeBinding}
    (htypes : types' = types.rename r.types (TypeBinding.rename r)) :
    Renamed r { s with types } { s' with types := types' } :=
  ⟨⟨h.reports, h.facts, h.frames, h.registry⟩, htypes, h.vars, h.functions, h.loopDepth⟩

theorem withVars {vars vars' : Scopes VarBinding} (hvars : vars' = vars.rename r.vars id) :
    Renamed r { s with vars } { s' with vars := vars' } :=
  ⟨⟨h.reports, h.facts, h.frames, h.registry⟩, h.types, hvars, h.functions, h.loopDepth⟩

theorem withFunctions {functions functions' : Scopes FunBinding}
    (hfunctions : functions' = functions.rename r.functions id) :
    Renamed r { s with functions } { s' with functions := functions' } :=
  ⟨⟨h.reports, h.facts, h.frames, h.registry⟩, h.types, h.vars, hfunctions, h.loopDepth⟩

theorem withRegistry {registry registry' : Registry}
    (hregistry : registry' = registry.rename r.types) :
    Renamed r { s with registry } { s' with registry := registry' } :=
  ⟨⟨h.reports, h.facts, h.frames, hregistry⟩, h.types, h.vars, h.functions, h.loopDepth⟩

theorem withFrames {frames frames' : Frames} (hframes : frames'.unnamed = frames.unnamed) :
    Renamed r { s with frames } { s' with frames := frames' } :=
  ⟨⟨h.reports, h.facts, hframes, h.registry⟩, h.types, h.vars, h.functions, h.loopDepth⟩

theorem withFacts {facts facts' : Facts} (hfacts : facts'.unnamed = facts.unnamed) :
    Renamed r { s with facts } { s' with facts := facts' } :=
  ⟨⟨h.reports, hfacts, h.frames, h.registry⟩, h.types, h.vars, h.functions, h.loopDepth⟩

theorem withLoopDepth {loopDepth loopDepth' : Nat} (hdepth : loopDepth' = loopDepth) :
    Renamed r { s with loopDepth } { s' with loopDepth := loopDepth' } :=
  ⟨⟨h.reports, h.facts, h.frames, h.registry⟩, h.types, h.vars, h.functions, hdepth⟩

end Checker.Renamed

/-- From states that differ by the renaming, both actions lead to such states. The result of the
second is that of the first, changed by `f`. -/
def Mirrors {α β : Type} (r : Renaming) (f : α → β) (x : CheckM α) (y : CheckM β) : Prop :=
  ∀ s s' : Checker, s.Renamed r s' →
    (y.run s').1 = f (x.run s).1 ∧ (x.run s).2.Renamed r (y.run s').2

namespace Mirrors
variable {α β γ δ : Type} {r : Renaming} {f : α → β} {g : γ → δ} {x : CheckM α} {y : CheckM β}

theorem pure (f : α → β) (a : α) : Mirrors r f (pure a) (pure (f a)) := fun _ _ h => ⟨rfl, h⟩

theorem bind {k : α → CheckM γ} {k' : β → CheckM δ} (hx : Mirrors r f x y)
    (hk : ∀ a, Mirrors r g (k a) (k' (f a))) : Mirrors r g (x >>= k) (y >>= k') := by
  intro s s' h
  obtain ⟨hresult, hstate⟩ := hx s s' h
  have hrest := hk (x.run s).1 _ _ hstate
  rw [← hresult] at hrest
  exact hrest

theorem getThen {k : Checker → CheckM α} {k' : Checker → CheckM β}
    (hk : ∀ s s' : Checker, s.Renamed r s' → Mirrors r f (k s) (k' s')) :
    Mirrors r f (get >>= k) (get >>= k') := fun s s' h => hk s s' h s s' h

theorem modify {change change' : Checker → Checker}
    (hchange : ∀ s s' : Checker, s.Renamed r s' → (change s).Renamed r (change' s')) :
    Mirrors r id (modify change) (modify change') := fun s s' h => ⟨rfl, hchange s s' h⟩

theorem discard {x y : CheckM α} (hx : Mirrors r id x y) :
    Mirrors r id (discard x) (discard y) := fun s s' h => ⟨rfl, (hx s s' h).2⟩

end Mirrors

namespace CheckM
variable {r : Renaming}

theorem tell_mirrors (event event' : Event) : Mirrors r id (tell event) (tell event') :=
  .modify fun _ _ h => ⟨⟨h.reports, h.facts, h.frames, h.registry⟩, h.types, h.vars, h.functions,
    h.loopDepth⟩

theorem report_mirrors {cause cause' : Cause} (htitle : cause'.title = cause.title)
    (position : Position) : Mirrors r id (report cause position) (report cause' position) := by
  refine .bind (tell_mirrors _ _) fun _ => .modify fun s s' h => ?_
  refine ⟨⟨?_, h.facts, h.frames, h.registry⟩, h.types, h.vars, h.functions, h.loopDepth⟩
  simp only [Array.map_push, h.reports, Diagnostic.brief, htitle]

theorem require_mirrors (expected received : Ty) (position : Position) :
    Mirrors r id (require expected received position) (require expected received position) := by
  unfold require
  split
  · exact .pure id true
  · exact .getThen fun s s' h => .bind (report_mirrors (by rfl) position) fun _ => .pure id false

theorem requireThen_mirrors {α β : Type} {f : α → β} {x y : CheckM Ty} {k : CheckM α}
    {k' : CheckM β} (expected : Ty) (position : Position) (hx : Mirrors r id x y)
    (hk : Mirrors r f k k') :
    Mirrors r f (do discard (require expected (← x) position); k)
      (do discard (require expected (← y) position); k') :=
  .bind hx fun _ => .bind (.discard (require_mirrors _ _ _)) fun _ => hk

theorem inScope_mirrors {α : Type} {x y : CheckM α} (hx : Mirrors r id x y) :
    Mirrors r id (inScope x) (inScope y) := by
  refine .bind (.modify fun s s' h => ?_) fun _ => .getThen fun _ _ _ => .bind (tell_mirrors _ _)
    fun _ => .bind hx fun a => .bind (.modify fun s s' h => ?_) fun _ => .pure id a
  · exact ((h.withTypes (congrArg Scopes.enter h.types)).withVars
      (congrArg Scopes.enter h.vars)).withFunctions (congrArg Scopes.enter h.functions)
  · have htypes : s'.types.leave = s.types.leave.rename r.types (TypeBinding.rename r) := by
      rw [h.types, Scopes.leave_rename]
    have hvars : s'.vars.leave = s.vars.leave.rename r.vars id := by
      rw [h.vars, Scopes.leave_rename]
    have hfunctions : s'.functions.leave = s.functions.leave.rename r.functions id := by
      rw [h.functions, Scopes.leave_rename]
    exact ((h.withTypes htypes).withVars hvars).withFunctions hfunctions

theorem reserve_mirrors (ty : Ty) : Mirrors r id (reserve ty) (reserve ty) := by
  intro s s' h
  have hboth : ((s'.frames.reserve ty).1, (s'.frames.reserve ty).2.unnamed) =
      ((s.frames.reserve ty).1, (s.frames.reserve ty).2.unnamed) := by
    rw [← Frames.reserve_unnamed, h.frames, Frames.reserve_unnamed]
  obtain ⟨hslot, hframes⟩ := Prod.mk.inj hboth
  exact ⟨hslot, h.withFrames hframes⟩

theorem learn_mirrors {change : Facts → Facts} (hchange : ∀ a, (change a).unnamed =
    change a.unnamed) : Mirrors r id (learn change) (learn change) := by
  refine .modify fun s s' h => h.withFacts ?_
  rw [hchange, h.facts, hchange]

theorem noteExp_mirrors (node : Node) {x y : CheckM Ty} (hx : Mirrors r id x y) :
    Mirrors r id (noteExp node x) (noteExp node y) :=
  .bind hx fun ty => .bind (learn_mirrors fun _ => rfl) fun _ => .pure id ty

theorem noteVar_mirrors (node : Node) {x y : CheckM Ty} (hx : Mirrors r id x y) :
    Mirrors r id (noteVar node x) (noteVar node y) :=
  .bind hx fun ty => .bind (learn_mirrors fun _ => rfl) fun _ => .pure id ty

theorem noteSlot_mirrors (node : Node) (slot : Slot) :
    Mirrors r id (noteSlot node slot) (noteSlot node slot) := learn_mirrors fun _ => rfl

/-! Names of types -/

theorem resolved?_mirrors (name : String) :
    Mirrors r id (resolved? name) (resolved? (r.types name)) := by
  refine .getThen fun s s' h => ?_
  rw [h.find?_types]
  cases s.types.find? name <;> exact .pure id _

theorem settle_mirrors (name : String) (ty : Ty) :
    Mirrors r id (settle name ty) (settle (r.types name) ty) := by
  refine .modify fun s s' h => h.withTypes ?_
  rw [h.types]
  exact Scopes.change_rename _ _ r.types_injective (fun _ => by rfl) name

theorem declaresRecord_rename {s s' : Checker} (h : s.Renamed r s') (name : String) :
    declaresRecord s'.types (r.types name) = declaresRecord s.types name := by
  unfold declaresRecord
  rw [h.find?_types]
  obtain _ | ⟨_ | definition, resolved, position⟩ := s.types.find? name
  · rfl
  · rfl
  · exact TypeExp.isRecord_rename r definition

theorem addRecord_mirrors (name : String) :
    Mirrors r id (addRecord name) (addRecord (r.types name)) := by
  intro s s' h
  have hboth : s'.registry.addRecord (r.types name) =
      ((s.registry.addRecord name).1, (s.registry.addRecord name).2.rename r.types) := by
    rw [h.registry, Registry.addRecord_rename]
  obtain ⟨hid, hregistry⟩ := Prod.ext_iff.mp hboth
  exact ⟨hid, h.withRegistry hregistry⟩

theorem addArray_mirrors (name : String) (element : Ty) :
    Mirrors r id (addArray name element) (addArray (r.types name) element) := by
  intro s s' h
  have hboth : s'.registry.addArray (r.types name) element =
      ((s.registry.addArray name element).1,
        (s.registry.addArray name element).2.rename r.types) := by
    rw [h.registry, Registry.addArray_rename]
  obtain ⟨hid, hregistry⟩ := Prod.ext_iff.mp hboth
  exact ⟨hid, h.withRegistry hregistry⟩

theorem fillRecord_mirrors (number : Nat) (fields : List (String × Ty)) :
    Mirrors r id (fillRecord number fields) (fillRecord number fields) := by
  refine .modify fun s s' h => h.withRegistry ?_
  rw [h.registry, Registry.fillRecord_rename]

def MirrorsNames (r : Renaming) (resolve resolve' : String → Position → CheckM Ty) : Prop :=
  ∀ name position, Mirrors r id (resolve name position) (resolve' (r.types name) position)

section Resolve
variable {resolve resolve' : String → Position → CheckM Ty}
  (hresolve : MirrorsNames r resolve resolve')
include hresolve

theorem resolveFields_mirrors (found : List (String × Ty)) (fields : List Field) :
    Mirrors r id (resolveFields resolve found fields)
      (resolveFields resolve' found (fields.map (Field.retyped r))) := by
  induction fields generalizing found with
  | nil => exact .pure id found
  | cons field fields ih =>
    rw [List.map_cons, resolveFields, resolveFields, Field.name_retyped]
    split
    · exact .bind (report_mirrors (by rfl) _) fun _ => ih found
    · exact .bind (hresolve field.typeName _) fun ty => ih _

theorem resolveDefinition_mirrors (name : String) (definition : TypeExp) :
    Mirrors r id (resolveDefinition resolve name definition)
      (resolveDefinition resolve' (r.types name) (definition.rename r)) := by
  cases definition with
  | name span target => exact hresolve target span.start
  | array span element =>
    refine .bind (hresolve element span.start) fun element => .bind (resolved?_mirrors name) ?_
    rintro (_ | ty)
    · change Mirrors r id (if element.isError = true then _ else _)
        (if element.isError = true then _ else _)
      split
      · exact .pure id Ty.error
      · exact .bind (addArray_mirrors name element) fun number => .pure id (Ty.array number)
    · exact .pure id ty
  | record span fields =>
    refine .bind (addRecord_mirrors name) fun number => .bind (settle_mirrors name _) fun _ => ?_
    exact .bind (resolveFields_mirrors hresolve [] fields) fun found =>
      .bind (fillRecord_mirrors number found) fun _ => .pure id (Ty.record number)

omit hresolve in
theorem settleAll_mirrors (loop : List String) (ty : Ty) :
    Mirrors r id (loop.forM fun visited => settle visited ty)
      ((loop.map r.types).forM fun visited => settle visited ty) := by
  induction loop with
  | nil => exact .pure id PUnit.unit
  | cons name rest ih => exact .bind (settle_mirrors name ty) fun _ => ih

theorem resolveLoop_mirrors (name : String) (declared position : Position) (loop : List String) :
    Mirrors r id (resolveLoop resolve name declared position loop)
      (resolveLoop resolve' (r.types name) declared position (loop.map r.types)) := by
  refine .getThen fun s s' h => ?_
  have hany : (loop.map r.types).tail.any (declaresRecord s'.types) =
      loop.tail.any (declaresRecord s.types) := by
    rw [← List.map_tail, List.any_map]
    exact congrArg _ (funext (declaresRecord_rename h))
  simp only [hany]
  split
  · exact hresolve name position
  · exact .bind (report_mirrors (by rfl) declared) fun _ =>
      .bind (settleAll_mirrors loop .error) fun _ => .pure id Ty.error

omit hresolve in
theorem dropWhile_map_types (visiting : List String) (name : String) :
    (visiting.map r.types).dropWhile (· != r.types name) =
      (visiting.dropWhile (· != name)).map r.types := by
  have hsame : (· != r.types name) ∘ r.types = (· != name) := by
    funext other
    change (r.types other != r.types name) = (other != name)
    rw [Bool.eq_iff_iff, bne_iff_ne, bne_iff_ne, r.types_injective.ne_iff]
  rw [List.dropWhile_map, hsame]

theorem walk_mirrors (fuel : Nat) (visiting : List String) (name : String) (position : Position) :
    Mirrors r id (walk resolve fuel visiting name position)
      (walk resolve' fuel (visiting.map r.types) (r.types name) position) := by
  -- The fuel is the same on both sides, and so is the entry of a name up to the names in it.
  induction fuel generalizing visiting name position with
  | zero => exact .pure id Ty.error
  | succ fuel ih =>
    refine .getThen fun s s' h => ?_
    rw [h.find?_types]
    obtain _ | ⟨definition, _ | ty, declared⟩ := s.types.find? name
    · exact .bind (report_mirrors (by rfl) position) fun _ => .pure id Ty.error
    · obtain _ | definition := definition
      · exact .pure id Ty.error
      · have hmem : r.types name ∈ visiting.map r.types ↔ name ∈ visiting :=
          List.mem_map_of_injective r.types_injective
        change Mirrors r id (if name ∈ visiting then _ else _)
          (if r.types name ∈ visiting.map r.types then _ else _)
        simp only [hmem, dropWhile_map_types]
        split
        · exact resolveLoop_mirrors hresolve name declared position _
        · have hwalk : MirrorsNames r (walk resolve fuel (visiting ++ [name]))
              (walk resolve' fuel (visiting.map r.types ++ [r.types name])) := by
            intro other place
            simpa using ih (visiting ++ [name]) other place
          refine .bind (resolveDefinition_mirrors hwalk name definition) fun found => ?_
          refine .bind (resolved?_mirrors name) fun known => ?_
          refine .bind (settle_mirrors name _) fun _ => .getThen fun _ _ _ => ?_
          exact .bind (tell_mirrors _ _) fun _ => .pure id _
    · exact .pure id ty

end Resolve

theorem freshWalk_mirrors (fuel rounds : Nat) :
    MirrorsNames r (freshWalk fuel rounds) (freshWalk fuel rounds) := by
  induction rounds with
  | zero => exact fun _ _ => .pure id Ty.error
  | succ rounds ih => exact walk_mirrors ih fuel []

theorem typeNamed_mirrors : MirrorsNames r typeNamed typeNamed := by
  intro name position
  refine .getThen fun s s' h => ?_
  -- Renaming leaves as many entries, which is where the fuel comes from.
  have hsize : s'.types.size = s.types.size := by rw [h.types, Scopes.size_rename]
  simp only [hsize]
  exact walk_mirrors (freshWalk_mirrors _ 2) _ [] name position

end CheckM

end TigerLang
