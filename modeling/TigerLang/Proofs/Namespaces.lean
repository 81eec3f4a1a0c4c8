import Mathlib.Logic.Equiv.Basic
import TigerLang.Analysis
import TigerLang.Proofs.Effects
import TigerLang.Proofs.Mirroring

/-! Names of variables, functions and types say nothing beyond which of them are the same. A program
checked with other names gets the same reports, types, slots and frames. -/

namespace TigerLang

namespace CheckM
variable {r : Renaming}

/-! Rules -/

theorem typeOfArithmetic_mirrors (left right : Ty) (position : Position) :
    Mirrors r id (typeOfArithmetic left right position) (typeOfArithmetic left right position) :=
  .bind (.discard (require_mirrors _ _ _)) fun _ =>
    .bind (.discard (require_mirrors _ _ _)) fun _ => .pure id Ty.int

theorem typeOfEquality_mirrors (left right : Ty) (position : Position) :
    Mirrors r id (typeOfEquality left right position) (typeOfEquality left right position) := by
  unfold typeOfEquality
  split
  · exact .bind (report_mirrors rfl position) fun _ => .pure id Ty.error
  split
  · exact .bind (report_mirrors rfl position) fun _ => .pure id Ty.error
  · exact .bind (.discard (require_mirrors _ _ _)) fun _ => .pure id Ty.int

theorem typeOfOrder_mirrors (left right : Ty) (position : Position) :
    Mirrors r id (typeOfOrder left right position) (typeOfOrder left right position) := by
  unfold typeOfOrder
  split
  · exact .pure id Ty.int
  · exact .pure id Ty.int
  · exact .pure id Ty.int
  · exact .pure id Ty.int
  · exact .bind (.discard (require_mirrors _ _ _)) fun _ => .pure id Ty.int
  · exact .bind (.discard (require_mirrors _ _ _)) fun _ => .pure id Ty.int
  · exact .bind (.discard (require_mirrors _ _ _)) fun _ => .pure id Ty.int

theorem typeOfBinary_mirrors (op : Operator) (left right : Ty) (position : Position) :
    Mirrors r id (typeOfBinary op left right position) (typeOfBinary op left right position) := by
  unfold typeOfBinary
  split
  · exact typeOfArithmetic_mirrors left right position
  split
  · exact typeOfEquality_mirrors left right position
  · exact typeOfOrder_mirrors left right position

theorem checkArgs_mirrors (params : List Ty) (args : List (Ty × Position)) :
    Mirrors r id (checkArgs params args) (checkArgs params args) := by
  induction params generalizing args with
  | nil => exact .pure id PUnit.unit
  | cons param params ih =>
    cases args with
    | nil => exact .pure id PUnit.unit
    | cons arg args => exact .bind (.discard (require_mirrors _ _ _)) fun _ => ih args

theorem typeOfCall_mirrors (node : Node) (function : String) (args : List (Ty × Position)) :
    Mirrors r id (typeOfCall node function args)
      (typeOfCall node (r.functions function) args) := by
  refine .getThen fun s s' h => ?_
  rw [h.find?_functions]
  cases s.functions.find? function with
  | none => exact .bind (report_mirrors (by rfl) _) fun _ => .pure id Ty.error
  | some entry =>
    refine .bind (learn_mirrors fun _ => rfl) fun _ => ?_
    have hrest : Mirrors r id (do checkArgs entry.params args; return entry.result)
        (do checkArgs entry.params args; return entry.result) :=
      .bind (checkArgs_mirrors _ _) fun _ => .pure id entry.result
    change Mirrors r id (if entry.params.length ≠ args.length then _ else _)
      (if entry.params.length ≠ args.length then _ else _)
    split
    · exact .bind (report_mirrors rfl _) fun _ => hrest
    · exact hrest

theorem checkFields_mirrors (declared : List (String × Ty)) (fields : List GivenField)
    (rest : List (String × Ty)) :
    Mirrors r id (checkFields declared fields rest) (checkFields declared fields rest) := by
  induction fields generalizing rest with
  | nil => exact .pure id PUnit.unit
  | cons field fields ih =>
    cases rest with
    | nil => exact .pure id PUnit.unit
    | cons expected rest =>
      rw [checkFields]
      split
      · exact .bind (.discard (require_mirrors _ _ _)) fun _ => ih rest
      split
      · exact .bind (report_mirrors rfl _) fun _ => ih rest
      · exact .bind (report_mirrors rfl _) fun _ => ih rest

theorem typeOfRecord_mirrors (ty : Ty) (typeName typeName' : String) (fields : List GivenField)
    (position : Position) : Mirrors r id (typeOfRecord ty typeName fields position)
      (typeOfRecord ty typeName' fields position) := by
  have hmisuse : ∀ text text' : String, Mirrors r id
      (do report (.misuse text) position; return Ty.error)
      (do report (.misuse text') position; return Ty.error) :=
    fun text text' => .bind (report_mirrors (by rfl) position) fun _ => .pure id Ty.error
  cases ty with
  | error => exact .pure id Ty.error
  | record number =>
    refine .getThen fun s s' h => ?_
    rw [h.registry, Registry.records_rename]
    cases s.registry.records[number]? with
    | none => exact .pure id Ty.error
    | some record =>
      have hrest : Mirrors r id
          (do checkFields record.fields fields record.fields; return Ty.record number)
          (do checkFields record.fields fields record.fields; return Ty.record number) :=
        .bind (checkFields_mirrors _ _ _) fun _ => .pure id (Ty.record number)
      change Mirrors r id (if record.fields.length ≠ fields.length then _ else _)
        (if record.fields.length ≠ fields.length then _ else _)
      split
      · exact .bind (report_mirrors rfl _) fun _ => hrest
      · exact hrest
  | _ => exact hmisuse _ _

theorem typeOfArray_mirrors (ty : Ty) (typeName typeName' : String) (init : Ty)
    (position initPosition : Position) :
    Mirrors r id (typeOfArray ty typeName init position initPosition)
      (typeOfArray ty typeName' init position initPosition) := by
  cases ty with
  | error => exact .pure id Ty.error
  | array number =>
    refine .getThen fun s s' h => ?_
    rw [h.registry, Registry.element?_rename]
    exact .bind (.discard (require_mirrors _ _ _)) fun _ => .pure id (Ty.array number)
  | _ => exact .bind (report_mirrors (by rfl) position) fun _ => .pure id Ty.error

theorem typeOfSimple_mirrors (node : Node) (name : String) :
    Mirrors r id (typeOfSimple node name) (typeOfSimple node (r.vars name)) := by
  refine .getThen fun s s' h => ?_
  rw [h.find?_vars, h.level]
  cases s.vars.find? name with
  | none => exact .bind (report_mirrors (by rfl) _) fun _ => .pure id Ty.error
  | some entry => exact .bind (learn_mirrors fun _ => rfl) fun _ => .pure id entry.ty

theorem typeOfField_mirrors (base : Ty) (name : String) (position : Position) :
    Mirrors r id (typeOfField base name position) (typeOfField base name position) := by
  refine .getThen fun s s' h => ?_
  cases base with
  | error => exact .pure id Ty.error
  | record number =>
    simp only [h.registry, Registry.field?_rename]
    cases s.registry.field? (.record number) name with
    | none => exact .bind (report_mirrors rfl position) fun _ => .pure id Ty.error
    | some found => exact .pure id found.2
  | _ => exact .bind (report_mirrors (by rfl) position) fun _ => .pure id Ty.error

theorem typeOfSubscript_mirrors (base : Ty) (position : Position) :
    Mirrors r id (typeOfSubscript base position) (typeOfSubscript base position) := by
  refine .getThen fun s s' h => ?_
  cases base with
  | error => exact .pure id Ty.error
  | array number =>
    simp only [h.registry, Registry.element?_rename]
    exact .pure id _
  | _ => exact .bind (report_mirrors (by rfl) position) fun _ => .pure id Ty.error

theorem checkAssignable_mirrors (target : Var) :
    Mirrors r id (checkAssignable target) (checkAssignable (target.rename r)) := by
  cases target with
  | simple node name =>
    rw [Var.rename]
    refine .getThen fun s s' h => ?_
    rw [h.find?_vars]
    obtain _ | ⟨ty, slot, _ | _⟩ := s.vars.find? name
    · exact .pure id PUnit.unit
    · exact .pure id PUnit.unit
    · exact report_mirrors (by rfl) node.span.start
  | field node base name =>
    rw [Var.rename]
    exact .pure id PUnit.unit
  | subscript node base index =>
    rw [Var.rename]
    exact .pure id PUnit.unit

theorem typeOfBranches_mirrors (yes no : Ty) (position : Position) :
    Mirrors r id (typeOfBranches yes no position) (typeOfBranches yes no position) := by
  refine .bind (require_mirrors yes no position) fun accepted => ?_
  cases accepted with
  | false => exact .pure id Ty.error
  | true => cases yes <;> exact .pure id _

theorem typeOfBreak_mirrors (position : Position) :
    Mirrors r id (typeOfBreak position) (typeOfBreak position) := by
  refine .getThen fun s s' h => ?_
  rw [h.loopDepth]
  split
  · exact .bind (report_mirrors rfl position) fun _ => .pure id Ty.error
  · exact .pure id Ty.void

/-! Variables -/

theorem bindVar_mirrors (name : String) (entry : VarBinding) :
    Mirrors r id (modify fun s => { s with vars := s.vars.bind name entry })
      (modify fun s => { s with vars := s.vars.bind (r.vars name) entry }) := by
  refine .modify fun s s' h => h.withVars ?_
  rw [h.vars]
  exact Scopes.bind_rename id _ r.vars_injective name entry

theorem inLoop_mirrors {α : Type} {x y : CheckM α} (hx : Mirrors r id x y) :
    Mirrors r id (inLoop x) (inLoop y) := by
  refine .bind (.modify fun s s' h => ?_) fun _ => .bind hx fun a =>
    .bind (.modify fun s s' h => ?_) fun _ => .pure id a
  · exact h.withLoopDepth (congrArg (· + 1) h.loopDepth)
  · exact h.withLoopDepth (congrArg (· - 1) h.loopDepth)

theorem withLoopVar_mirrors {α : Type} (node : Node) (name : String) {x y : CheckM α}
    (hx : Mirrors r id x y) :
    Mirrors r id (withLoopVar node name x) (withLoopVar node (r.vars name) y) := by
  refine .bind (.modify fun s s' h => ?_) fun _ => .bind (reserve_mirrors .int) fun slot =>
    .bind (noteSlot_mirrors node slot) fun _ => .bind (bindVar_mirrors name _) fun _ =>
    .bind hx fun a => .bind (.modify fun s s' h => ?_) fun _ => .pure id a
  · exact h.withVars (congrArg Scopes.enter h.vars)
  · refine h.withVars ?_
    rw [h.vars, Scopes.leave_rename]

theorem declaredType_mirrors (node : Node) (typeName : Option String) (init : Ty)
    (initPosition : Position) : Mirrors r id (declaredType node typeName init initPosition)
      (declaredType node (typeName.map r.types) init initPosition) := by
  cases typeName with
  | some typeName =>
    exact .bind (typeNamed_mirrors typeName _) fun ty =>
      .bind (.discard (require_mirrors _ _ _)) fun _ => .pure id ty
  | none =>
    change Mirrors r id (if init = .nil ∨ init = .void then _ else _)
      (if init = .nil ∨ init = .void then _ else _)
    split
    · exact .getThen fun s s' h => .bind (report_mirrors (by rfl) _) fun _ => .pure id Ty.error
    · exact .pure id init

theorem declareVar_mirrors (node : Node) (name : String) (ty : Ty) :
    Mirrors r id (declareVar node name ty) (declareVar node (r.vars name) ty) := by
  refine .bind (reserve_mirrors ty) fun slot => .bind (noteSlot_mirrors node slot) fun _ =>
    .getThen fun s s' h => ?_
  rw [h.hasHere_vars]
  split
  · exact report_mirrors (by rfl) node.span.start
  · exact bindVar_mirrors name _

theorem declareParams_mirrors (params : List Field) (types : List Ty) :
    Mirrors r id (declareParams params types)
      (declareParams (params.map (Field.renamed r)) types) := by
  induction params generalizing types with
  | nil => exact .pure id PUnit.unit
  | cons param params ih =>
    cases types with
    | nil => exact .pure id PUnit.unit
    | cons ty types => exact .bind (declareVar_mirrors _ _ _) fun _ => ih types

theorem inFunction_mirrors (frame : Nat) {x y : CheckM Unit} (hx : Mirrors r id x y) :
    Mirrors r id (inFunction frame x) (inFunction frame y) := by
  refine .getThen fun s s' houter => .bind (.modify fun s s' h => ?_) fun _ => .bind hx fun _ =>
    .bind (.modify fun s s' h => ?_) fun _ => .getThen fun s s' h => ?_
  · have henter : (s'.frames.enter frame).unnamed = (s.frames.enter frame).unnamed :=
      congrArg (Frames.enter · frame) h.frames
    exact (h.withFrames henter).withLoopDepth rfl
  -- The depth that is put back is the one read at first, on both sides.
  · have hleave : s'.frames.leave.unnamed = s.frames.leave.unnamed := by
      rw [← Frames.leave_unnamed, h.frames, Frames.leave_unnamed]
    exact (h.withFrames hleave).withLoopDepth houter.loopDepth
  · have hframe : s'.frames.frames[frame]?.map Frame.unnamed =
        s.frames.frames[frame]?.map Frame.unnamed := by
      rw [← Frames.getElem?_unnamed, h.frames, Frames.getElem?_unnamed]
    cases hs : s.frames.frames[frame]? with
    | none =>
      rw [hs, Option.map_none, Option.map_eq_none_iff] at hframe
      rw [hframe]
      exact .pure id PUnit.unit
    | some found =>
      rw [hs, Option.map_some, Option.map_eq_some_iff] at hframe
      obtain ⟨found', hfound, -⟩ := hframe
      rw [hfound]
      exact tell_mirrors _ _

/-! Blocks -/

theorem declareTypes_mirrors (decs : List Dec) :
    Mirrors r (List.map (Prod.map r.types id)) (declareTypes decs)
      (declareTypes (Dec.renameList r decs)) := by
  induction decs with
  | nil =>
    rw [Dec.renameList]
    exact .pure _ []
  | cons d decs ih =>
    cases d with
    | var node name typeName init =>
      rw [Dec.renameList]
      exact ih
    | function node name params result body =>
      rw [Dec.renameList]
      exact ih
    | type node name definition =>
      rw [Dec.renameList]
      refine .getThen fun s s' h => ?_
      rw [h.hasHere_types]
      split
      · exact .bind (report_mirrors (by rfl) _) fun _ => ih
      · refine .bind (.modify fun s s' h => ?_) fun _ => .bind ih fun names =>
          .pure (List.map (Prod.map r.types id)) ((name, _) :: names)
        refine h.withTypes ?_
        rw [h.types]
        exact Scopes.bind_rename (TypeBinding.rename r) _ r.types_injective name
          ⟨some definition, none, node.span.start⟩

theorem resolveTypes_mirrors (names : List (String × Position)) :
    Mirrors r id (resolveTypes names) (resolveTypes (names.map (Prod.map r.types id))) := by
  induction names with
  | nil => exact .pure id PUnit.unit
  | cons first rest ih =>
    exact .bind (.discard (typeNamed_mirrors first.1 first.2)) fun _ => ih

theorem paramTypes_mirrors (params : List Field) :
    Mirrors r id (paramTypes params) (paramTypes (params.map (Field.renamed r))) := by
  induction params with
  | nil => exact .pure id []
  | cons param params ih =>
    unfold paramTypes
    rw [List.map_cons, List.mapM_cons, List.mapM_cons]
    exact .bind (typeNamed_mirrors param.typeName _) fun ty => .bind ih fun types =>
      .pure id (ty :: types)

theorem addFunction_mirrors (node : Node) (name symbol name' symbol' : String) (params : List Ty)
    (result : Ty) : Mirrors r id (addFunction node name symbol params result)
      (addFunction node name' symbol' params result) := by
  intro s s' h
  have hframe : ((s'.frames.declare symbol').1, (s'.frames.declare symbol').2.unnamed) =
      ((s.frames.declare symbol).1, (s.frames.declare symbol).2.unnamed) := by
    rw [← Frames.declare_unnamed, h.frames, Frames.declare_unnamed _ symbol]
  obtain ⟨hnumber, hframes⟩ := Prod.mk.inj hframe
  have hcount : s'.frames.frames.size = s.frames.frames.size := hnumber
  refine ⟨h.functions_size, (h.withFrames hframes).withFacts ?_⟩
  rw [Facts.unnamed_push, Facts.unnamed_push, h.facts, h.functions_size, h.routineOf]
  simp only [Routine.unnamed, hcount, h.level]

theorem resultType_mirrors (node : Node) (result : Option String) :
    Mirrors r id (resultType node result) (resultType node (result.map r.types)) := by
  cases result with
  | none => exact .pure id Ty.void
  | some result => exact typeNamed_mirrors result node.span.start

theorem enterFunction_mirrors (node : Node) (name : String) (params : List Ty) (result : Ty) :
    Mirrors r id (enterFunction node name params result)
      (enterFunction node (r.functions name) params result) := by
  refine .bind (addFunction_mirrors _ _ _ _ _ _ _) fun number => .bind (tell_mirrors _ _) fun _ =>
    .getThen fun s s' h => ?_
  rw [h.hasHere_functions]
  split
  · exact report_mirrors (by rfl) node.span.start
  · refine .modify fun s s' h => h.withFunctions ?_
    rw [h.functions]
    exact Scopes.bind_rename id _ r.functions_injective name _

theorem declareHeading_mirrors (node : Node) (name : String) (params : List Field)
    (result : Option String) : Mirrors r id (declareHeading node name params result)
      (declareHeading node (r.functions name) (params.map (Field.renamed r))
        (result.map r.types)) := by
  rw [declareHeading_eq, declareHeading_eq]
  exact .bind (paramTypes_mirrors params) fun types => .bind (resultType_mirrors node result)
    (enterFunction_mirrors node name types)

theorem declareHeadings_mirrors (decs : List Dec) :
    Mirrors r id (declareHeadings decs) (declareHeadings (Dec.renameList r decs)) := by
  induction decs with
  | nil =>
    rw [Dec.renameList]
    exact .pure id PUnit.unit
  | cons d decs ih =>
    cases d with
    | function node name params result body =>
      rw [Dec.renameList]
      exact .bind (declareHeading_mirrors _ _ _ _) fun _ => ih
    | var node name typeName init =>
      rw [Dec.renameList]
      exact ih
    | type node name definition =>
      rw [Dec.renameList]
      exact ih

theorem declareBlock_mirrors (decs : List Dec) :
    Mirrors r id (declareBlock decs) (declareBlock (Dec.renameList r decs)) :=
  .bind (declareTypes_mirrors decs) fun names => .bind (resolveTypes_mirrors names) fun _ =>
    declareHeadings_mirrors decs

/-! Programs -/

theorem checkFunction_mirrors (dec : Nat) (params : List Field) (result : Option String)
    {body : Exp} (hbody : Mirrors r id (inferExp body) (inferExp (body.rename r))) :
    Mirrors r id (checkFunction dec params result body)
      (checkFunction dec (params.map (Field.renamed r)) (result.map r.types) (body.rename r)) := by
  refine .getThen fun s s' h => ?_
  have hinfo := h.routine? dec
  cases hs : s.facts.routine? dec with
  | none =>
    rw [hs, Option.map_none, Option.map_eq_none_iff] at hinfo
    rw [hinfo]
    exact .pure _ PUnit.unit
  | some info =>
    rw [hs, Option.map_some, Option.map_eq_some_iff] at hinfo
    obtain ⟨info', hinfo, hsame⟩ := hinfo
    -- The two routines differ by their names alone.
    have hframe : info'.frame = info.frame := (congrArg Routine.frame hsame :)
    have hparams : info'.params = info.params := (congrArg Routine.params hsame :)
    have hresult : info'.result = info.result := (congrArg Routine.result hsame :)
    rw [hinfo]
    simp only [hframe, hparams, hresult, Option.isSome_map, Exp.start_rename]
    exact inFunction_mirrors info.frame (inScope_mirrors (.bind (declareParams_mirrors params _)
      fun _ => .bind hbody fun ty => .discard (require_mirrors _ _ _)))

mutual

theorem inferExp_mirrors : ∀ e : Exp, Mirrors r id (inferExp e) (inferExp (e.rename r))
  | .nil node => noteExp_mirrors node (.pure id Ty.nil)
  | .int node value => noteExp_mirrors node (.pure id Ty.int)
  | .str node value => noteExp_mirrors node (.pure id Ty.string)
  | .var node target => noteExp_mirrors node (inferVar_mirrors target)
  | .call node function args => noteExp_mirrors node
      (.bind (inferExps_mirrors args) (typeOfCall_mirrors node function))
  | .binary node op left right => by
    rw [Exp.rename, inferExp, inferExp, Exp.start_rename]
    exact noteExp_mirrors node (.bind (inferExp_mirrors left) fun leftType =>
      .bind (inferExp_mirrors right) fun rightType => typeOfBinary_mirrors op _ _ _)
  | .record node typeName fields => noteExp_mirrors node
      (.bind (typeNamed_mirrors typeName node.span.start) fun ty =>
        .bind (inferGiven_mirrors fields) fun given => typeOfRecord_mirrors ty _ _ given _)
  | .seq node exps => noteExp_mirrors node
      (.bind (inferExps_mirrors exps) fun types => .pure id _)
  | .assign node target value => by
    rw [Exp.rename, inferExp, inferExp, Exp.start_rename]
    exact noteExp_mirrors node (.bind (inferVar_mirrors target) fun targetType =>
      .bind (inferExp_mirrors value) fun valueType =>
        .bind (checkAssignable_mirrors target) fun _ =>
          .bind (.discard (require_mirrors _ _ _)) fun _ => .pure id Ty.void)
  | .ifThen node test body => by
    rw [Exp.rename, inferExp, inferExp, Exp.start_rename, Exp.start_rename]
    exact noteExp_mirrors node (requireThen_mirrors .int test.start (inferExp_mirrors test)
      (requireThen_mirrors .void body.start (inferExp_mirrors body) (.pure id Ty.void)))
  | .ifThenElse node test yes no => by
    rw [Exp.rename, inferExp, inferExp, Exp.start_rename, Exp.start_rename]
    exact noteExp_mirrors node (requireThen_mirrors .int test.start (inferExp_mirrors test)
      (.bind (inferExp_mirrors yes) fun yesType => .bind (inferExp_mirrors no) fun noType =>
        typeOfBranches_mirrors _ _ _))
  | .whileDo node test body => by
    rw [Exp.rename, inferExp, inferExp, Exp.start_rename, Exp.start_rename]
    exact noteExp_mirrors node (requireThen_mirrors .int test.start (inferExp_mirrors test)
      (requireThen_mirrors .void body.start (inLoop_mirrors (inferExp_mirrors body))
        (.pure id Ty.void)))
  | .forTo node name lo hi body => by
    rw [Exp.rename, inferExp, inferExp, Exp.start_rename, Exp.start_rename, Exp.start_rename]
    exact noteExp_mirrors node (requireThen_mirrors .int lo.start (inferExp_mirrors lo)
      (requireThen_mirrors .int hi.start (inferExp_mirrors hi)
        (requireThen_mirrors .void body.start
          (withLoopVar_mirrors node name (inLoop_mirrors (inferExp_mirrors body)))
          (.pure id Ty.void))))
  | .breakLoop node => noteExp_mirrors node (typeOfBreak_mirrors node.span.start)
  | .letIn node decs body => noteExp_mirrors node
      (inScope_mirrors (.bind (declareBlock_mirrors decs) fun _ =>
        .bind (checkBodies_mirrors decs) fun _ => inferExp_mirrors body))
  | .array node typeName size init => by
    rw [Exp.rename, inferExp, inferExp, Exp.start_rename, Exp.start_rename]
    exact noteExp_mirrors node (.bind (typeNamed_mirrors typeName node.span.start) fun ty =>
      requireThen_mirrors .int size.start (inferExp_mirrors size)
        (.bind (inferExp_mirrors init) fun initType => typeOfArray_mirrors ty _ _ initType _ _))

theorem inferVar_mirrors : ∀ v : Var, Mirrors r id (inferVar v) (inferVar (v.rename r))
  | .simple node name => noteVar_mirrors node (typeOfSimple_mirrors node name)
  | .field node base name => noteVar_mirrors node
      (.bind (inferVar_mirrors base) fun baseType => typeOfField_mirrors baseType name _)
  | .subscript node base index => by
    rw [Var.rename, inferVar, inferVar, Exp.start_rename]
    exact noteVar_mirrors node (.bind (inferVar_mirrors base) fun baseType =>
      requireThen_mirrors .int index.start (inferExp_mirrors index)
        (typeOfSubscript_mirrors baseType _))

theorem inferExps_mirrors :
    ∀ es : List Exp, Mirrors r id (inferExps es) (inferExps (Exp.renameList r es))
  | [] => .pure id []
  | e :: es => by
    rw [Exp.renameList, inferExps, inferExps, Exp.start_rename]
    exact .bind (inferExp_mirrors e) fun ty => .bind (inferExps_mirrors es) fun types =>
      .pure id ((ty, e.start) :: types)

theorem inferGiven_mirrors : ∀ fields : List FieldExp,
    Mirrors r id (inferGiven fields) (inferGiven (FieldExp.renameList r fields))
  | [] => .pure id []
  | .mk span name value :: fields => by
    rw [FieldExp.renameList, inferGiven, inferGiven, Exp.start_rename]
    exact .bind (inferExp_mirrors value) fun ty => .bind (inferGiven_mirrors fields) fun given =>
      .pure id (⟨name, span.start, ty, value.start⟩ :: given)

theorem checkBodies_mirrors :
    ∀ decs : List Dec, Mirrors r id (checkBodies decs) (checkBodies (Dec.renameList r decs))
  | [] => .pure id PUnit.unit
  | .var node name typeName init :: decs => by
    rw [Dec.renameList, checkBodies, checkBodies, Exp.start_rename]
    exact .bind (inferExp_mirrors init) fun initType =>
      .bind (declaredType_mirrors node typeName initType init.start) fun ty =>
        .bind (declareVar_mirrors node name ty) fun _ => checkBodies_mirrors decs
  | .type node name definition :: decs => checkBodies_mirrors decs
  | .function node name params result body :: decs => by
    rw [Dec.renameList]
    intro s s' h
    rw [checkBodies_function, checkBodies_function]
    have hfunction := checkFunction_mirrors node.id params result (inferExp_mirrors body) s s' h
    exact checkBodies_mirrors decs _ _ hfunction.2

end

theorem checkProgram_mirrors (e : Exp) :
    Mirrors r id (checkProgram e) (checkProgram (e.rename r)) := by
  refine .bind (inferExp_mirrors e) fun ty => .bind (.modify fun s s' h => ?_) fun _ =>
    .getThen fun s s' _ => .bind (tell_mirrors _ _) fun _ => .pure id ty
  refine h.withFrames ?_
  rw [Frames.closeMain, Frames.closeMain, ← Frames.finalize_unnamed, h.frames,
    Frames.finalize_unnamed]

end CheckM

theorem Checker.renamed_initial (r : Renaming) : Checker.initial.Renamed r .initial := by
  refine ⟨⟨rfl, rfl, rfl, ?_⟩, ?_, rfl, ?_, rfl⟩
  · simp [initial, Registry.empty, Registry.rename]
  · change builtinTypes = Scopes.mk [] [(r.types "int", _), (r.types "string", _)]
    rw [r.int, r.string]
    rfl
  -- The table of functions has no names but those of the library, which are not renamed.
  · have hnames : ∀ entry ∈ libraryFunctions.root, ∃ f ∈ LibraryFunction.all, f.name = entry.1 := by
      decide +kernel
    refine congrArg (Scopes.mk []) (Scope.rename_eq_self fun entry hentry => ?_).symm
    obtain ⟨f, hf, hname⟩ := hnames entry hentry
    rw [← hname, r.library f hf]

/-- Variables, functions and types may be renamed each on their own. As long as different names stay
different and those that the language provides stay what they are, checking finds the same. -/
theorem check_rename (r : Renaming) (e : Exp) : (check e).SameFindings r (check (e.rename r)) :=
  (CheckM.checkProgram_mirrors e _ _ (Checker.renamed_initial r)).2.toSameFindings

def Renaming.apart : Renaming where
  vars := Equiv.swap "a" "v"
  functions := Equiv.swap "a" "f"
  types := Equiv.swap "a" "t"
  vars_injective := Equiv.injective _
  functions_injective := Equiv.injective _
  types_injective := Equiv.injective _
  library := by decide
  int := by decide
  string := by decide

def oneNameSource : String :=
  "let type a = \x7ba: int\x7d function a(a: a): a = b var a: a := 1 in a(a); a.a end"

def oneName : Exp :=
  (parse "a.tig" ((Token.scan oneNameSource "a.tig").toOption.getD [])).1.toOption.getD default

theorem check_rename_oneName :
    (check oneName).diagnostics = #[⟨.undefinedName .variable "b", ⟨44, "a.tig"⟩⟩,
      ⟨.typeMismatch "a" "int", ⟨58, "a.tig"⟩⟩] ∧
    (check (oneName.rename .apart)).diagnostics = #[⟨.undefinedName .variable "b", ⟨44, "a.tig"⟩⟩,
      ⟨.typeMismatch "t" "int", ⟨58, "a.tig"⟩⟩] ∧
    (check oneName).SameFindings .apart (check (oneName.rename .apart)) := by
  refine ⟨?_, ?_, check_rename .apart oneName⟩
  · decide +kernel
  · decide +kernel

end TigerLang
