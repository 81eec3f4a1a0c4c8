import TigerLang.Proofs.CanonicalTypes
import TigerLang.Typing.Check

/-! The steps of checking that may report a mistake and leave the rest of the state alone. Finding
the type of a name is one of them, once all type names have been looked into. -/

namespace TigerLang

structure Checker.Reports (s s' : Checker) : Prop where
  same : s' = { s with diagnostics := s'.diagnostics, events := s'.events }
  diagnostics : s.diagnostics.toList <+: s'.diagnostics.toList
  events : s.events.toList <+: s'.events.toList

namespace Checker.Reports
variable {s s' s'' : Checker}

theorem refl (s : Checker) : s.Reports s := ⟨rfl, List.prefix_rfl, List.prefix_rfl⟩

theorem trans (h : s.Reports s') (h' : s'.Reports s'') : s.Reports s'' := by
  refine ⟨?_, h.diagnostics.trans h'.diagnostics, h.events.trans h'.events⟩
  rw [h'.same, h.same]

theorem types (h : s.Reports s') : s'.types = s.types := by rw [h.same]

theorem report (s : Checker) (cause : Cause) (position : Position) :
    s.Reports ((CheckM.report cause position).run s).2 :=
  ⟨rfl, diagnostics_report cause position s, events_tell (.reported cause) s⟩

theorem tell (s : Checker) (event : Event) : s.Reports ((CheckM.tell event).run s).2 :=
  ⟨rfl, List.prefix_rfl, events_tell event s⟩

end Checker.Reports

/-- The action is made of looking at the state and reporting, and of nothing else. -/
inductive Observes : {α : Type} → CheckM α → Prop
  | pure {α : Type} (a : α) : Observes (pure a)
  | get : Observes get
  | tell (event : Event) : Observes (CheckM.tell event)
  | report (cause : Cause) (position : Position) : Observes (CheckM.report cause position)
  | bind {α β : Type} {x : CheckM α} {f : α → CheckM β} (hx : Observes x)
      (hf : ∀ a, Observes (f a)) : Observes (x >>= f)

/-- Once all type names have been looked into, the action at most reports something. -/
def OnlyReports {α : Type} (x : CheckM α) : Prop :=
  ∀ s : Checker, AllResolved s.types → s.Reports (x.run s).2

namespace Observes
variable {α β : Type}

theorem reports {x : CheckM α} (h : Observes x) (s : Checker) : s.Reports (x.run s).2 := by
  induction h generalizing s with
  | pure a => exact .refl s
  | get => exact .refl s
  | tell event => exact .tell s event
  | report cause position => exact .report s cause position
  | bind _ _ hx hf => exact (hx s).trans (hf _ _)

theorem onlyReports {x : CheckM α} (h : Observes x) : OnlyReports x := fun s _ => h.reports s

theorem getThen {f : Checker → CheckM α} (hf : ∀ s, Observes (f s)) :
    Observes (MonadState.get >>= f) := get.bind hf

theorem discard {x : CheckM α} (hx : Observes x) : Observes (discard x : CheckM Unit) :=
  hx.bind fun _ => pure ()

theorem report_then (cause : Cause) (position : Position) {x : CheckM α} (hx : Observes x) :
    Observes (CheckM.report cause position >>= fun _ => x) :=
  (report cause position).bind fun _ => hx

theorem require (expected received : Ty) (position : Position) :
    Observes (CheckM.require expected received position) := by
  unfold CheckM.require
  split
  · exact pure _
  · exact getThen fun s => report_then _ _ (pure _)

theorem require_then (expected received : Ty) (position : Position) {x : CheckM α}
    (hx : Observes x) : Observes
      (Functor.discard (CheckM.require expected received position) >>= fun _ => x) :=
  (require expected received position).discard.bind fun _ => hx

end Observes

namespace OnlyReports
variable {α β : Type}

theorem pure (a : α) : OnlyReports (pure a : CheckM α) := (Observes.pure a).onlyReports

theorem bind {x : CheckM α} {f : α → CheckM β} (hx : OnlyReports x)
    (hf : ∀ a, OnlyReports (f a)) : OnlyReports (x >>= f) := by
  intro s hs
  have hfirst := hx s hs
  exact hfirst.trans (hf _ _ (hfirst.types.symm ▸ hs))

theorem get {f : Checker → CheckM α} (hf : ∀ s, OnlyReports (f s)) : OnlyReports (get >>= f) :=
  fun s hs => hf s s hs

theorem discard {x : CheckM α} (hx : OnlyReports x) : OnlyReports (discard x : CheckM Unit) := hx

theorem report (cause : Cause) (position : Position) :
    OnlyReports (CheckM.report cause position) := (Observes.report cause position).onlyReports

theorem report_then (cause : Cause) (position : Position) {x : CheckM α} (hx : OnlyReports x) :
    OnlyReports (CheckM.report cause position >>= fun _ => x) :=
  (report cause position).bind fun _ => hx

theorem require (expected received : Ty) (position : Position) :
    OnlyReports (CheckM.require expected received position) :=
  (Observes.require expected received position).onlyReports

theorem require_then (expected received : Ty) (position : Position) {x : CheckM α}
    (hx : OnlyReports x) : OnlyReports
      (Functor.discard (CheckM.require expected received position) >>= fun _ => x) :=
  (require expected received position).discard.bind fun _ => hx

end OnlyReports

namespace CheckM

theorem typeOfArithmetic_observes (left right : Ty) (position : Position) :
    Observes (typeOfArithmetic left right position) :=
  .require_then _ _ _ (.require_then _ _ _ (.pure _))

theorem typeOfEquality_observes (left right : Ty) (position : Position) :
    Observes (typeOfEquality left right position) := by
  unfold typeOfEquality
  split
  · exact .report_then _ _ (.pure _)
  split
  · exact .report_then _ _ (.pure _)
  · exact .require_then _ _ _ (.pure _)

theorem typeOfOrder_observes (left right : Ty) (position : Position) :
    Observes (typeOfOrder left right position) := by
  unfold typeOfOrder
  split
  · exact .pure _
  · exact .pure _
  · exact .pure _
  · exact .pure _
  · exact .require_then _ _ _ (.pure _)
  · exact .require_then _ _ _ (.pure _)
  · exact .require_then _ _ _ (.pure _)

theorem typeOfBinary_observes (op : Operator) (left right : Ty) (position : Position) :
    Observes (typeOfBinary op left right position) := by
  unfold typeOfBinary
  split
  · exact typeOfArithmetic_observes left right position
  split
  · exact typeOfEquality_observes left right position
  · exact typeOfOrder_observes left right position

theorem checkArgs_observes (params : List Ty) (args : List (Ty × Position)) :
    Observes (checkArgs params args) := by
  induction params generalizing args with
  | nil => exact .pure _
  | cons param params ih =>
    cases args with
    | nil => exact .pure _
    | cons arg args => exact .require_then _ _ _ (ih args)

theorem checkFields_observes (declared : List (String × Ty)) (fields : List GivenField)
    (rest : List (String × Ty)) : Observes (checkFields declared fields rest) := by
  induction fields generalizing rest with
  | nil => exact .pure _
  | cons field fields ih =>
    cases rest with
    | nil => exact .pure _
    | cons expected rest =>
      unfold checkFields
      split
      · exact .require_then _ _ _ (ih rest)
      split
      · exact .report_then _ _ (ih rest)
      · exact .report_then _ _ (ih rest)

theorem typeOfRecord_observes (ty : Ty) (typeName : String) (fields : List GivenField)
    (position : Position) : Observes (typeOfRecord ty typeName fields position) := by
  unfold typeOfRecord
  split
  · exact .pure _
  · refine .getThen fun s => ?_
    split
    · exact .pure _
    · split
      · exact .report_then _ _ ((checkFields_observes _ _ _).bind fun _ => .pure _)
      · exact (checkFields_observes _ _ _).bind fun _ => .pure _
  · exact .report_then _ _ (.pure _)

theorem typeOfArray_observes (ty : Ty) (typeName : String) (init : Ty)
    (position initPosition : Position) :
    Observes (typeOfArray ty typeName init position initPosition) := by
  unfold typeOfArray
  split
  · exact .pure _
  · exact .getThen fun s => .require_then _ _ _ (.pure _)
  · exact .report_then _ _ (.pure _)

theorem typeOfField_observes (base : Ty) (name : String) (position : Position) :
    Observes (typeOfField base name position) := by
  unfold typeOfField
  refine .getThen fun s => ?_
  dsimp only
  split
  · exact .pure _
  · split
    · exact .pure _
    · exact .report_then _ _ (.pure _)
  · exact .report_then _ _ (.pure _)

theorem typeOfSubscript_observes (base : Ty) (position : Position) :
    Observes (typeOfSubscript base position) := by
  unfold typeOfSubscript
  refine .getThen fun s => ?_
  split
  · exact .pure _
  · exact .pure _
  · exact .report_then _ _ (.pure _)

theorem checkAssignable_observes (target : Var) : Observes (checkAssignable target) := by
  unfold checkAssignable
  split
  · refine .getThen fun s => ?_
    split
    · exact .report _ _
    · exact .pure _
  · exact .pure _

theorem typeOfBranches_observes (yes no : Ty) (position : Position) :
    Observes (typeOfBranches yes no position) := by
  unfold typeOfBranches
  refine (Observes.require yes no position).bind fun compatible => ?_
  split
  · split <;> exact .pure _
  · exact .pure _

theorem typeOfBreak_observes (position : Position) : Observes (typeOfBreak position) := by
  unfold typeOfBreak
  refine .getThen fun s => ?_
  split
  · exact .report_then _ _ (.pure _)
  · exact .pure _

theorem typeOfArithmetic_onlyReports (left right : Ty) (position : Position) :
    OnlyReports (typeOfArithmetic left right position) :=
  (typeOfArithmetic_observes left right position).onlyReports

theorem typeOfEquality_onlyReports (left right : Ty) (position : Position) :
    OnlyReports (typeOfEquality left right position) :=
  (typeOfEquality_observes left right position).onlyReports

theorem typeOfOrder_onlyReports (left right : Ty) (position : Position) :
    OnlyReports (typeOfOrder left right position) :=
  (typeOfOrder_observes left right position).onlyReports

theorem typeOfBinary_onlyReports (op : Operator) (left right : Ty) (position : Position) :
    OnlyReports (typeOfBinary op left right position) :=
  (typeOfBinary_observes op left right position).onlyReports

theorem checkArgs_onlyReports (params : List Ty) (args : List (Ty × Position)) :
    OnlyReports (checkArgs params args) :=
  (checkArgs_observes params args).onlyReports

theorem checkFields_onlyReports (declared : List (String × Ty)) (fields : List GivenField)
    (rest : List (String × Ty)) : OnlyReports (checkFields declared fields rest) :=
  (checkFields_observes declared fields rest).onlyReports

theorem typeOfRecord_onlyReports (ty : Ty) (typeName : String) (fields : List GivenField)
    (position : Position) : OnlyReports (typeOfRecord ty typeName fields position) :=
  (typeOfRecord_observes ty typeName fields position).onlyReports

theorem typeOfArray_onlyReports (ty : Ty) (typeName : String) (init : Ty)
    (position initPosition : Position) :
    OnlyReports (typeOfArray ty typeName init position initPosition) :=
  (typeOfArray_observes ty typeName init position initPosition).onlyReports

theorem typeOfField_onlyReports (base : Ty) (name : String) (position : Position) :
    OnlyReports (typeOfField base name position) :=
  (typeOfField_observes base name position).onlyReports

theorem typeOfSubscript_onlyReports (base : Ty) (position : Position) :
    OnlyReports (typeOfSubscript base position) :=
  (typeOfSubscript_observes base position).onlyReports

theorem checkAssignable_onlyReports (target : Var) : OnlyReports (checkAssignable target) :=
  (checkAssignable_observes target).onlyReports

theorem typeOfBranches_onlyReports (yes no : Ty) (position : Position) :
    OnlyReports (typeOfBranches yes no position) :=
  (typeOfBranches_observes yes no position).onlyReports

theorem typeOfBreak_onlyReports (position : Position) : OnlyReports (typeOfBreak position) :=
  (typeOfBreak_observes position).onlyReports

theorem typeNamed_resolved {s : Checker} (hs : AllResolved s.types) (name : String)
    (position : Position) :
    (typeNamed name position).run s = (typeIn s.types name,
      if (s.types.find? name).isSome then s
      else ((report (.undefinedName .type name) position).run s).2) := by
  rw [typeNamed_run]
  cases hfind : s.types.find? name with
  | none =>
    rw [walk_unknown hfind]
    simp [typeIn, typeOf?, hfind]
  | some binding =>
    obtain ⟨ty, hty⟩ := Option.isSome_iff_exists.mp (hs.find? hfind)
    rw [walk_settled hfind hty]
    simp [typeIn, typeOf?, hfind, hty]

theorem typeNamed_onlyReports (name : String) (position : Position) :
    OnlyReports (typeNamed name position) := by
  intro s hs
  rw [typeNamed_resolved hs]
  split
  · exact .refl s
  · exact .report s _ _

theorem declaredType_onlyReports (node : Node) (typeName : Option String) (init : Ty)
    (initPosition : Position) : OnlyReports (declaredType node typeName init initPosition) := by
  unfold declaredType
  split
  · exact (typeNamed_onlyReports _ _).bind fun ty => .require_then _ _ _ (.pure _)
  · split
    · exact .get fun s => .report_then _ _ (.pure _)
    · exact .pure _

theorem paramTypes_onlyReports (params : List Field) : OnlyReports (paramTypes params) := by
  unfold paramTypes
  induction params with
  | nil => exact .pure _
  | cons param params ih =>
    rw [List.mapM_cons]
    exact (typeNamed_onlyReports _ _).bind fun ty => ih.bind fun types => .pure _

theorem paramTypes_resolved {s : Checker} (hs : AllResolved s.types) (params : List Field) :
    ((paramTypes params).run s).1 = params.map fun param => typeIn s.types param.typeName := by
  induction params generalizing s with
  | nil => rfl
  | cons param params ih =>
    have hreports := typeNamed_onlyReports param.typeName param.node.span.start s hs
    have hfirst : ((typeNamed param.typeName param.node.span.start).run s).1 =
        typeIn s.types param.typeName := by rw [typeNamed_resolved hs]
    have hrest := ih (hreports.types.symm ▸ hs)
    rw [hreports.types] at hrest
    rw [List.map_cons, ← hfirst, ← hrest, paramTypes, List.mapM_cons]
    rfl

end CheckM

end TigerLang
