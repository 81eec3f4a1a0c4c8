import TigerLang.Proofs.Effects

/-! The steps of checking that have nothing to do with leaving loops. They report other mistakes than
that there is no loop to leave, and the loops around are the same afterwards. -/

namespace TigerLang

@[simp] def Cause.noLoop : Cause := .misuse "`break` must be inside a loop"

def Checker.strays (s : Checker) : List Diagnostic :=
  s.diagnostics.toList.filter fun d => d.cause = Cause.noLoop

theorem Checker.strays_report (s : Checker) (cause : Cause) (position : Position) :
    ((CheckM.report cause position).run s).2.strays =
      s.strays ++ if cause = Cause.noLoop then [⟨cause, position⟩] else [] := by
  change (s.diagnostics.push ⟨cause, position⟩).toList.filter _ = _
  rw [Array.toList_push, List.filter_append, List.filter_singleton, Bool.cond_decide]
  rfl

/-- Nothing has been found out about loops and the ways out of them, nor a type noted. Functions that
were declared still are. -/
structure Checker.Neutral (s s' : Checker) : Prop where
  loopDepth : s'.loopDepth = s.loopDepth
  strays : s'.strays = s.strays
  expTypes : s'.facts.expTypes = s.facts.expTypes
  routines : ∀ id, (s.facts.routine? id).isSome → (s'.facts.routine? id).isSome

namespace Checker.Neutral
variable {s s' s'' : Checker}

theorem trans (h : s.Neutral s') (h' : s'.Neutral s'') : s.Neutral s'' where
  loopDepth := h'.loopDepth.trans h.loopDepth
  strays := h'.strays.trans h.strays
  expTypes := h'.expTypes.trans h.expTypes
  routines id hid := h'.routines id (h.routines id hid)

theorem of_same (hdepth : s'.loopDepth = s.loopDepth) (hdiagnostics : s'.diagnostics = s.diagnostics)
    (hfacts : s'.facts = s.facts) : s.Neutral s' where
  loopDepth := hdepth
  strays := by rw [Checker.strays, hdiagnostics, Checker.strays]
  expTypes := by rw [hfacts]
  routines id hid := by rwa [hfacts]

theorem refl (s : Checker) : s.Neutral s := of_same rfl rfl rfl

theorem of_facts (hdepth : s'.loopDepth = s.loopDepth) (hdiagnostics : s'.diagnostics = s.diagnostics)
    (hexps : s'.facts.expTypes = s.facts.expTypes)
    (hfunctions : s'.facts.functions = s.facts.functions)
    (hroutines : s'.facts.routineOf = s.facts.routineOf) : s.Neutral s' where
  loopDepth := hdepth
  strays := by rw [Checker.strays, hdiagnostics, Checker.strays]
  expTypes := hexps
  routines id hid := by rwa [Facts.routine?, hfunctions, hroutines]

end Checker.Neutral

def Neutral {α : Type} (x : CheckM α) : Prop := ∀ s : Checker, s.Neutral (x.run s).2

namespace Neutral
variable {α β : Type} {x : CheckM α} {f : α → CheckM β}

theorem pure (a : α) : Neutral (pure a : CheckM α) := fun s => .refl s

theorem bind (hx : Neutral x) (hf : ∀ a, Neutral (f a)) : Neutral (x >>= f) :=
  fun s => (hx s).trans (hf _ _)

theorem getThen {f : Checker → CheckM α} (hf : ∀ s, Neutral (f s)) : Neutral (get >>= f) :=
  fun s => hf s s

theorem discard (hx : Neutral x) : Neutral (discard x : CheckM Unit) := hx

theorem report {cause : Cause} (h : cause ≠ Cause.noLoop) (position : Position) :
    Neutral (CheckM.report cause position) := by
  intro s
  refine ⟨rfl, ?_, rfl, fun _ hid => hid⟩
  rw [Checker.strays_report, if_neg h, List.append_nil]

theorem report_then {cause : Cause} (h : cause ≠ Cause.noLoop) (position : Position)
    (hx : Neutral x) : Neutral (CheckM.report cause position >>= fun _ => x) :=
  (report h position).bind fun _ => hx

theorem tell (event : Event) : Neutral (CheckM.tell event) := fun _ => .of_same rfl rfl rfl

theorem require (expected received : Ty) (position : Position) :
    Neutral (CheckM.require expected received position) := by
  unfold CheckM.require
  split
  · exact pure _
  · exact getThen fun s => report_then (by simp) _ (pure _)

theorem require_then (expected received : Ty) (position : Position) (hx : Neutral x) :
    Neutral (Functor.discard (CheckM.require expected received position) >>= fun _ => x) :=
  (require expected received position).discard.bind fun _ => hx

end Neutral

/-! Rules -/

namespace CheckM

theorem typeOfArithmetic_neutral (left right : Ty) (position : Position) :
    Neutral (typeOfArithmetic left right position) :=
  .require_then _ _ _ (.require_then _ _ _ (.pure _))

theorem typeOfEquality_neutral (left right : Ty) (position : Position) :
    Neutral (typeOfEquality left right position) := by
  unfold typeOfEquality
  split
  · exact .report_then (by simp) _ (.pure _)
  split
  · exact .report_then (by decide) _ (.pure _)
  · exact .require_then _ _ _ (.pure _)

theorem typeOfOrder_neutral (left right : Ty) (position : Position) :
    Neutral (typeOfOrder left right position) := by
  unfold typeOfOrder
  split
  · exact .pure _
  · exact .pure _
  · exact .pure _
  · exact .pure _
  · exact .require_then _ _ _ (.pure _)
  · exact .require_then _ _ _ (.pure _)
  · exact .require_then _ _ _ (.pure _)

theorem typeOfBinary_neutral (op : Operator) (left right : Ty) (position : Position) :
    Neutral (typeOfBinary op left right position) := by
  unfold typeOfBinary
  split
  · exact typeOfArithmetic_neutral left right position
  split
  · exact typeOfEquality_neutral left right position
  · exact typeOfOrder_neutral left right position

theorem checkArgs_neutral (params : List Ty) (args : List (Ty × Position)) :
    Neutral (checkArgs params args) := by
  induction params generalizing args with
  | nil => exact .pure _
  | cons param params ih =>
    cases args with
    | nil => exact .pure _
    | cons arg args => exact .require_then _ _ _ (ih args)

theorem typeOfCall_neutral (node : Node) (function : String) (args : List (Ty × Position)) :
    Neutral (typeOfCall node function args) := by
  unfold typeOfCall
  refine .getThen fun s => ?_
  split
  · exact .report_then (by simp) _ (.pure _)
  · refine .bind (fun _ => .of_facts rfl rfl rfl rfl rfl) fun _ => ?_
    split
    · exact .report_then (by simp) _ ((checkArgs_neutral _ _).bind fun _ => .pure _)
    · exact (checkArgs_neutral _ _).bind fun _ => .pure _

theorem misuse_ne_of_head {text : String} {c : Char} (hhead : text.toList.head? = some c)
    (hc : c ≠ '`') : Cause.misuse text ≠ Cause.noLoop := by
  intro heq
  obtain rfl := Cause.misuse.inj heq
  exact hc (Option.some.inj hhead).symm

theorem misuse_ne_of_getLast (start : String) {text : String} {c : Char}
    (hlast : text.toList.getLast? = some c) (hc : c ≠ 'p') :
    Cause.misuse (start ++ text) ≠ Cause.noLoop := by
  intro heq
  have hlast' : (start ++ text).toList.getLast? = some c := by
    rw [String.toList_append, List.getLast?_append, hlast, Option.some_or]
  rw [Cause.misuse.inj heq] at hlast'
  exact hc (Option.some.inj hlast').symm

theorem checkFields_neutral (declared : List (String × Ty)) (fields : List GivenField)
    (rest : List (String × Ty)) : Neutral (checkFields declared fields rest) := by
  induction fields generalizing rest with
  | nil => exact .pure _
  | cons field fields ih =>
    cases rest with
    | nil => exact .pure _
    | cons expected rest =>
      unfold checkFields
      split
      · exact .require_then _ _ _ (ih rest)
      split
      · exact .report_then (misuse_ne_of_head (c := 'f') (by simp) (by decide)) _ (ih rest)
      · exact .report_then (by simp) _ (ih rest)

theorem typeOfRecord_neutral (ty : Ty) (typeName : String) (fields : List GivenField)
    (position : Position) : Neutral (typeOfRecord ty typeName fields position) := by
  unfold typeOfRecord
  split
  · exact .pure _
  · refine .getThen fun s => ?_
    split
    · exact .pure _
    · split
      · exact .report_then (by simp) _ ((checkFields_neutral _ _ _).bind fun _ => .pure _)
      · exact (checkFields_neutral _ _ _).bind fun _ => .pure _
  · exact .report_then (misuse_ne_of_getLast _ (c := 'e') rfl (by decide)) _ (.pure _)

theorem typeOfArray_neutral (ty : Ty) (typeName : String) (init : Ty)
    (position initPosition : Position) :
    Neutral (typeOfArray ty typeName init position initPosition) := by
  unfold typeOfArray
  split
  · exact .pure _
  · exact .getThen fun s => .require_then _ _ _ (.pure _)
  · exact .report_then (misuse_ne_of_getLast _ (c := 'e') rfl (by decide)) _ (.pure _)

theorem typeOfSimple_neutral (node : Node) (name : String) : Neutral (typeOfSimple node name) := by
  unfold typeOfSimple
  refine .getThen fun s => ?_
  split
  · exact .report_then (by simp) _ (.pure _)
  · exact .bind (fun _ => .of_facts rfl rfl rfl rfl rfl) fun _ => .pure _

theorem typeOfField_neutral (base : Ty) (name : String) (position : Position) :
    Neutral (typeOfField base name position) := by
  unfold typeOfField
  refine .getThen fun s => ?_
  dsimp only
  split
  · exact .pure _
  · split
    · exact .pure _
    · exact .report_then (by simp) _ (.pure _)
  · exact .report_then (misuse_ne_of_head (c := 'v') (by simp) (by decide)) _ (.pure _)

theorem typeOfSubscript_neutral (base : Ty) (position : Position) :
    Neutral (typeOfSubscript base position) := by
  unfold typeOfSubscript
  refine .getThen fun s => ?_
  split
  · exact .pure _
  · exact .pure _
  · exact .report_then (misuse_ne_of_head (c := 'v') (by simp) (by decide)) _ (.pure _)

theorem checkAssignable_neutral (target : Var) : Neutral (checkAssignable target) := by
  unfold checkAssignable
  split
  · refine .getThen fun s => ?_
    split
    · exact .report (misuse_ne_of_head (c := 'l') (by simp) (by decide)) _
    · exact .pure _
  · exact .pure _

theorem typeOfBranches_neutral (yes no : Ty) (position : Position) :
    Neutral (typeOfBranches yes no position) := by
  unfold typeOfBranches
  refine (Neutral.require yes no position).bind fun compatible => ?_
  split
  · split <;> exact .pure _
  · exact .pure _

/-! Type names -/

theorem resolved?_neutral (name : String) : Neutral (resolved? name) := .getThen fun _ => .pure _

theorem settle_neutral (name : String) (ty : Ty) : Neutral (settle name ty) :=
  fun _ => .of_same rfl rfl rfl

theorem settleAll_neutral (ty : Ty) (loop : List String) :
    Neutral (loop.forM fun visited => settle visited ty) := by
  induction loop with
  | nil => exact .pure _
  | cons visited loop ih => exact (settle_neutral visited ty).bind fun _ => ih

section resolve
variable {resolve : String → Position → CheckM Ty}
  (h : ∀ name position, Neutral (resolve name position))
include h

theorem resolveFields_neutral (found : List (String × Ty)) (fields : List Field) :
    Neutral (resolveFields resolve found fields) := by
  induction fields generalizing found with
  | nil => exact .pure _
  | cons field fields ih =>
    unfold resolveFields
    split
    · exact .report_then (by simp) _ (ih found)
    · exact (h _ _).bind fun ty => ih _

theorem resolveDefinition_neutral (name : String) (definition : TypeExp) :
    Neutral (resolveDefinition resolve name definition) := by
  cases definition with
  | name span target => exact h _ _
  | array span element =>
    refine (h _ _).bind fun ty => (resolved?_neutral name).bind fun found => ?_
    split
    · exact .pure _
    · split
      · exact .pure _
      · exact .bind (fun _ => .of_same rfl rfl rfl) fun _ => .pure _
  | record span fields =>
    refine .bind (fun _ => .of_same rfl rfl rfl) fun id => ?_
    refine (settle_neutral name _).bind fun _ => (resolveFields_neutral h [] fields).bind fun _ => ?_
    exact .bind (fun _ => .of_same rfl rfl rfl) fun _ => .pure _

theorem resolveLoop_neutral (name : String) (declared position : Position) (loop : List String) :
    Neutral (resolveLoop resolve name declared position loop) := by
  refine .getThen fun s => ?_
  dsimp only
  split
  · exact h _ _
  · exact .report_then (by simp) _ ((settleAll_neutral _ loop).bind fun _ => .pure _)

theorem walk_neutral (fuel : Nat) (visiting : List String) (name : String) (position : Position) :
    Neutral (walk resolve fuel visiting name position) := by
  induction fuel generalizing visiting name position with
  | zero => exact .pure _
  | succ fuel ih =>
    unfold walk
    refine .getThen fun s => ?_
    split
    · exact .report_then (by simp) _ (.pure _)
    · exact .pure _
    · exact .pure _
    · split
      · exact resolveLoop_neutral h _ _ _ _
      · refine (resolveDefinition_neutral (ih _) name _).bind fun found => ?_
        refine (resolved?_neutral name).bind fun _ => (settle_neutral name _).bind fun _ => ?_
        exact .getThen fun _ => (Neutral.tell _).bind fun _ => .pure _

end resolve

theorem freshWalk_neutral (fuel rounds : Nat) (name : String) (position : Position) :
    Neutral (freshWalk fuel rounds name position) := by
  induction rounds generalizing name position with
  | zero => exact .pure _
  | succ rounds ih => exact walk_neutral ih fuel [] name position

theorem typeNamed_neutral (name : String) (position : Position) : Neutral (typeNamed name position) :=
  .getThen fun _ => walk_neutral (freshWalk_neutral _ 2) _ [] name position

/-! Declarations -/

theorem declareTypes_neutral (decs : List Dec) : Neutral (declareTypes decs) := by
  induction decs with
  | nil => exact .pure _
  | cons d decs ih =>
    cases d with
    | var node name typeName init => exact ih
    | function node name params result body => exact ih
    | type node name definition =>
      refine .getThen fun s => ?_
      split
      · exact .report_then (by simp) _ ih
      · exact .bind (fun _ => .of_same rfl rfl rfl) fun _ => ih.bind fun _ => .pure _

theorem resolveTypes_neutral (names : List (String × Position)) : Neutral (resolveTypes names) := by
  induction names with
  | nil => exact .pure _
  | cons entry names ih => exact (typeNamed_neutral _ _).discard.bind fun _ => ih

theorem paramTypes_neutral (params : List Field) : Neutral (paramTypes params) := by
  induction params with
  | nil => exact .pure _
  | cons param params ih =>
    rw [paramTypes, List.mapM_cons]
    exact (typeNamed_neutral _ _).bind fun _ => ih.bind fun _ => .pure _

theorem resultType_neutral (node : Node) (result : Option String) :
    Neutral (resultType node result) := by
  cases result with
  | none => exact .pure _
  | some result => exact typeNamed_neutral _ _

theorem enterFunction_neutral (node : Node) (name : String) (params : List Ty) (result : Ty) :
    Neutral (enterFunction node name params result) := by
  intro s
  have hdeclared : s.Neutral (s.withFunction node name params result) := by
    refine ⟨rfl, rfl, rfl, fun id hid => ?_⟩
    rw [Checker.routine?_withFunction]
    split
    · rfl
    · obtain ⟨info, hinfo⟩ := Option.isSome_iff_exists.mp hid
      obtain ⟨k, hk, hinfo⟩ := Option.bind_eq_some_iff.mp hinfo
      rw [hk, Option.bind_some]
      split
      · rfl
      · rw [hinfo]
        rfl
  rw [enterFunction_run]
  split
  · exact hdeclared.trans (Neutral.report (by simp) _ _)
  · exact hdeclared.trans (.of_same rfl rfl rfl)

theorem declareHeading_neutral (node : Node) (name : String) (params : List Field)
    (result : Option String) : Neutral (declareHeading node name params result) := by
  rw [declareHeading_eq]
  exact (paramTypes_neutral params).bind fun _ => (resultType_neutral node result).bind fun _ =>
    enterFunction_neutral node name _ _

theorem declareHeadings_neutral (decs : List Dec) : Neutral (declareHeadings decs) := by
  induction decs with
  | nil => exact .pure _
  | cons d decs ih =>
    cases d with
    | var node name typeName init => exact ih
    | type node name definition => exact ih
    | function node name params result body =>
      exact (declareHeading_neutral node name params result).bind fun _ => ih

theorem declareBlock_neutral (decs : List Dec) : Neutral (declareBlock decs) :=
  (declareTypes_neutral decs).bind fun names => (resolveTypes_neutral names).bind fun _ =>
    declareHeadings_neutral decs

theorem declareHeading_declares (node : Node) (name : String) (params : List Field)
    (result : Option String) (s : Checker) :
    (((declareHeading node name params result).run s).2.facts.routine? node.id).isSome := by
  rw [declareHeading_eq, run_bind, run_bind, routine?_enterFunction]
  rfl

theorem declareHeadings_declares (decs : List Dec) (s : Checker) : ∀ id ∈ functionIds decs,
    (((declareHeadings decs).run s).2.facts.routine? id).isSome := by
  induction decs generalizing s with
  | nil => simp [functionIds]
  | cons d decs ih =>
    cases d with
    | var node name typeName init => exact ih s
    | type node name definition => exact ih s
    | function node name params result body =>
      rw [functionIds_function]
      refine List.forall_mem_cons.mpr ⟨?_, ih _⟩
      have hdeclared := declareHeading_declares node name params result s
      exact (declareHeadings_neutral decs _).routines _ hdeclared

theorem declareBlock_declares (decs : List Dec) (s : Checker) : ∀ id ∈ functionIds decs,
    (((declareBlock decs).run s).2.facts.routine? id).isSome := declareHeadings_declares decs _

theorem declareVar_neutral (node : Node) (name : String) (ty : Ty) :
    Neutral (declareVar node name ty) := by
  refine .bind (fun _ => .of_same rfl rfl rfl) fun slot => ?_
  refine .bind (fun _ => .of_facts rfl rfl rfl rfl rfl) fun _ => .getThen fun s => ?_
  split
  · exact .report (by simp) _
  · exact fun _ => .of_same rfl rfl rfl

theorem declareParams_neutral (params : List Field) (types : List Ty) :
    Neutral (declareParams params types) := by
  induction params generalizing types with
  | nil => exact .pure _
  | cons param params ih =>
    cases types with
    | nil => exact .pure _
    | cons ty types => exact (declareVar_neutral _ _ _).bind fun _ => ih types

theorem declaredType_neutral (node : Node) (typeName : Option String) (init : Ty)
    (initPosition : Position) : Neutral (declaredType node typeName init initPosition) := by
  cases typeName with
  | some typeName => exact (typeNamed_neutral _ _).bind fun _ => .require_then _ _ _ (.pure _)
  | none =>
    unfold declaredType
    dsimp only
    split
    · exact .getThen fun _ => .report_then (by simp) _ (.pure _)
    · exact .pure _

end CheckM

end TigerLang
