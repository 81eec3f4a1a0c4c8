import TigerLang.Proofs.Effects

/-! The states that checking passes through, one after each write. Every action of the checker has a
trace that follows its definition, and that starts and ends where the action does. -/

namespace TigerLang

/-- A state on the way. The types of a block are being resolved from the time its first type name is
entered until its last one has been looked into. -/
structure Moment where
  state : Checker
  resolving : Bool

/-- How an action is made up. Its parts either only look at the state and report, or write once. -/
inductive Trace : {α : Type} → CheckM α → Type 1
  | observe {α : Type} {x : CheckM α} (h : Observes x) : Trace x
  | write {α : Type} (f : Checker → α × Checker) : Trace (modifyGet f)
  | bind {α β : Type} {x : CheckM α} {f : α → CheckM β} (first : Trace x)
      (next : ∀ a, Trace (f a)) : Trace (x >>= f)
  | ite {α : Type} (c : Prop) [Decidable c] {x y : CheckM α} (yes : Trace x) (no : Trace y) :
      Trace (if c then x else y)
  | resolving {α : Type} {x : CheckM α} (t : Trace x) : Trace x

namespace Trace
variable {α β : Type}

def moments {α : Type} : {x : CheckM α} → Trace x → Checker → List Moment
  | x, .observe _, s => [⟨s, false⟩, ⟨(x.run s).2, false⟩]
  | _, .write f, s => [⟨s, false⟩, ⟨(f s).2, false⟩]
  | _, @bind _ _ x _ first next, s =>
    first.moments s ++ (next (x.run s).1).moments (x.run s).2
  | _, @ite _ c _ _ _ yes no, s => if c then yes.moments s else no.moments s
  | _, .resolving t, s => (t.moments s).map fun m => { m with resolving := true }

theorem head_moments {x : CheckM α} (t : Trace x) (s : Checker) :
    (t.moments s).head?.map Moment.state = some s := by
  induction t generalizing s with
  | observe h => rfl
  | write f => rfl
  | bind first next hfirst hnext =>
    obtain ⟨m, hm, hstate⟩ := Option.map_eq_some_iff.mp (hfirst s)
    rw [moments, List.head?_append, hm, Option.some_or, Option.map_some, hstate]
  | ite c yes no hyes hno =>
    by_cases hc : c
    · simpa only [moments, if_pos hc] using hyes s
    · simpa only [moments, if_neg hc] using hno s
  | resolving t ht =>
    rw [moments, List.head?_map, Option.map_map]
    exact ht s

theorem getLast_moments {x : CheckM α} (t : Trace x) (s : Checker) :
    (t.moments s).getLast?.map Moment.state = some (x.run s).2 := by
  induction t generalizing s with
  | observe h => rfl
  | write f => rfl
  | @bind _ _ x f first next hfirst hnext =>
    obtain ⟨m, hm, hstate⟩ := Option.map_eq_some_iff.mp (hnext (x.run s).1 (x.run s).2)
    rw [moments, List.getLast?_append, hm, Option.some_or, Option.map_some, hstate]
    rfl
  | ite c yes no hyes hno =>
    by_cases hc : c
    · simpa only [moments, if_pos hc] using hyes s
    · simpa only [moments, if_neg hc] using hno s
  | resolving t ht =>
    rw [moments, List.getLast?_map, Option.map_map]
    exact ht s

def pure (a : α) : Trace (Pure.pure a : CheckM α) := .observe (.pure a)

def get : Trace (MonadState.get : CheckM Checker) := .observe .get

def tell (event : Event) : Trace (CheckM.tell event) := .observe (.tell event)

def report (cause : Cause) (position : Position) : Trace (CheckM.report cause position) :=
  .observe (.report cause position)

def require (expected received : Ty) (position : Position) :
    Trace (discard (CheckM.require expected received position)) :=
  .observe (Observes.require expected received position).discard

def learn (f : Facts → Facts) : Trace (CheckM.learn f) := .write _

/-! Type names -/

def settle (name : String) (ty : Ty) : Trace (CheckM.settle name ty) := .write _

def addRecord (name : String) : Trace (CheckM.addRecord name) := .write _

def fillRecord (id : Nat) (fields : List (String × Ty)) : Trace (CheckM.fillRecord id fields) :=
  .write _

def addArray (name : String) (element : Ty) : Trace (CheckM.addArray name element) := .write _

def resolved? (name : String) : Trace (CheckM.resolved? name) := get.bind fun _ => pure _

section resolve
variable {resolve : String → Position → CheckM Ty}
  (t : ∀ name position, Trace (resolve name position))

def resolveFields : (found : List (String × Ty)) → (fields : List Field) →
    Trace (CheckM.resolveFields resolve found fields)
  | _, [] => pure _
  | found, _ :: fields => .ite _ ((report _ _).bind fun _ => resolveFields found fields)
      ((t _ _).bind fun _ => resolveFields _ fields)

def resolveDefinition (name : String) :
    (definition : TypeExp) → Trace (CheckM.resolveDefinition resolve name definition)
  | .name _ _ => t _ _
  | .array _ _ => (t _ _).bind fun element => (resolved? name).bind fun
    | some _ => pure _
    | none => .ite _ (pure _) ((addArray name element).bind fun _ => pure _)
  | .record _ fields => (addRecord name).bind fun id => (settle name _).bind fun _ =>
      (resolveFields t [] fields).bind fun _ => (fillRecord id _).bind fun _ => pure _

def settleAll (ty : Ty) :
    (loop : List String) → Trace (loop.forM fun visited => CheckM.settle visited ty)
  | [] => pure _
  | visited :: loop => (settle visited ty).bind fun _ => settleAll ty loop

def resolveLoop (name : String) (declared position : Position) (loop : List String) :
    Trace (CheckM.resolveLoop resolve name declared position loop) :=
  get.bind fun _ => .ite _ (t _ _)
    ((report _ _).bind fun _ => (settleAll _ loop).bind fun _ => pure _)

def walk : (fuel : Nat) → (visiting : List String) → (name : String) → (position : Position) →
    Trace (CheckM.walk resolve fuel visiting name position)
  | 0, _, _, _ => pure _
  | fuel + 1, _, name, position => get.bind fun s =>
    match s.types.find? name with
    | none => (report _ position).bind fun _ => pure _
    | some ⟨_, some _, _⟩ => pure _
    | some ⟨none, none, _⟩ => pure _
    | some ⟨some definition, none, _⟩ => .ite _ (resolveLoop t _ _ _ _)
        ((resolveDefinition (walk fuel _) name definition).bind fun _ =>
          (resolved? name).bind fun _ => (settle name _).bind fun _ => get.bind fun _ =>
            (tell _).bind fun _ => pure _)

end resolve

def freshWalk (fuel : Nat) : (rounds : Nat) → (name : String) → (position : Position) →
    Trace (CheckM.freshWalk fuel rounds name position)
  | 0, _, _ => pure _
  | rounds + 1, _, _ => walk (freshWalk fuel rounds) fuel [] _ _

def typeNamed (name : String) (position : Position) : Trace (CheckM.typeNamed name position) :=
  get.bind fun _ => walk (freshWalk _ 2) _ [] name position

/-! Blocks -/

def declareTypes : (decs : List Dec) → Trace (CheckM.declareTypes decs)
  | [] => pure _
  | .type _ _ _ :: decs => get.bind fun _ => .ite _
      ((report _ _).bind fun _ => declareTypes decs)
      (.bind (.write _) fun _ => (declareTypes decs).bind fun _ => pure _)
  | .var _ _ _ _ :: decs => declareTypes decs
  | .function _ _ _ _ _ :: decs => declareTypes decs

def resolveTypes : (names : List (String × Position)) → Trace (CheckM.resolveTypes names)
  | [] => pure _
  | (name, position) :: names =>
    ((typeNamed name position).bind fun _ => pure _ : Trace (discard _)).bind fun _ =>
      resolveTypes names

def paramTypes : (params : List Field) → (before : List Ty) → Trace (List.mapM.loop
    (fun param : Field => CheckM.typeNamed param.typeName param.node.span.start) params before)
  | [], _ => pure _
  | _ :: params, before => (typeNamed _ _).bind fun ty => paramTypes params (ty :: before)

def enterFunction (node : Node) (name : String) (params : List Ty) (result : Ty) :
    Trace (CheckM.enterFunction node name params result) :=
  .bind (.write _) fun _ => (tell _).bind fun _ => get.bind fun _ =>
    .ite _ (report _ _) (.write _)

def declareHeading (node : Node) (name : String) (params : List Field) :
    (result : Option String) → Trace (CheckM.declareHeading node name params result)
  | some _ => (paramTypes params []).bind fun _ => (typeNamed _ _).bind fun _ =>
      enterFunction node name _ _
  | none => (paramTypes params []).bind fun _ => (pure Ty.void).bind fun _ =>
      enterFunction node name _ _

def declareHeadings : (decs : List Dec) → Trace (CheckM.declareHeadings decs)
  | [] => pure _
  | .function node name params result _ :: decs =>
    (declareHeading node name params result).bind fun _ => declareHeadings decs
  | .var _ _ _ _ :: decs => declareHeadings decs
  | .type _ _ _ :: decs => declareHeadings decs

def declareBlock (decs : List Dec) : Trace (CheckM.declareBlock decs) :=
  ((declareTypes decs).bind resolveTypes).resolving.bind fun _ => declareHeadings decs

def enterScopes : Trace CheckM.enterScopes := .write _

def leaveScopes : Trace CheckM.leaveScopes := .write _

def inScope {x : CheckM α} (t : Trace x) : Trace (CheckM.inScope x) :=
  enterScopes.bind fun _ => get.bind fun _ => (tell _).bind fun _ => t.bind fun _ =>
    leaveScopes.bind fun _ => pure _

/-! Variables -/

def reserve (ty : Ty) : Trace (CheckM.reserve ty) := .write _

def noteSlot (node : Node) (slot : Slot) : Trace (CheckM.noteSlot node slot) := learn _

def defineVar (name : String) (entry : VarBinding) (position : Position) :
    Trace (CheckM.defineVar name entry position) :=
  get.bind fun _ => .ite _ (report _ _) (.write _)

def inLoop {x : CheckM α} (t : Trace x) : Trace (CheckM.inLoop x) :=
  .bind (.write _) fun _ => t.bind fun _ => .bind (.write _) fun _ => pure _

def withLoopVar (node : Node) (name : String) {x : CheckM α} (t : Trace x) :
    Trace (CheckM.withLoopVar node name x) :=
  .bind (.write _) fun _ => (reserve _).bind fun _ => (noteSlot node _).bind fun _ =>
    .bind (.write _) fun _ => t.bind fun _ => .bind (.write _) fun _ => pure _

def declaredType (node : Node) (init : Ty) (initPosition : Position) :
    (typeName : Option String) → Trace (CheckM.declaredType node typeName init initPosition)
  | some typeName => (typeNamed typeName _).bind fun _ => (require _ _ _).bind fun _ => pure _
  | none => .ite _ (get.bind fun _ => (report _ _).bind fun _ => pure _) (pure _)

def declareVar (node : Node) (name : String) (ty : Ty) : Trace (CheckM.declareVar node name ty) :=
  (reserve ty).bind fun _ => (noteSlot node _).bind fun _ => defineVar name _ _

def declareParams : (params : List Field) → (types : List Ty) →
    Trace (CheckM.declareParams params types)
  | param :: params, ty :: types =>
    (declareVar param.node param.name ty).bind fun _ => declareParams params types
  | [], _ => pure _
  | _ :: _, [] => pure _

def inFunction (frame : Nat) {x : CheckM Unit} (t : Trace x) : Trace (CheckM.inFunction frame x) :=
  get.bind fun _ => .bind (.write _) fun _ => t.bind fun _ => .bind (.write _) fun _ =>
    get.bind fun s =>
      match s.frames.frames[frame]? with
      | some _ => tell _
      | none => pure _

/-! Expressions -/

def noteExp (node : Node) {x : CheckM Ty} (t : Trace x) : Trace (CheckM.noteExp node x) :=
  t.bind fun _ => (learn _).bind fun _ => pure _

def noteVar (node : Node) {x : CheckM Ty} (t : Trace x) : Trace (CheckM.noteVar node x) :=
  t.bind fun _ => (learn _).bind fun _ => pure _

def typeOfSimple (node : Node) (name : String) : Trace (CheckM.typeOfSimple node name) :=
  get.bind fun s =>
    match s.vars.find? name with
    | none => (report _ _).bind fun _ => pure _
    | some _ => (learn _).bind fun _ => pure _

def typeOfCall (node : Node) (function : String) (args : List (Ty × Position)) :
    Trace (CheckM.typeOfCall node function args) :=
  get.bind fun s =>
    match s.functions.find? function with
    | none => (report _ _).bind fun _ => pure _
    | some entry => (learn _).bind fun _ =>
      let rest :=
        Trace.bind (.observe (CheckM.checkArgs_observes entry.params args)) fun _ => pure _
      .ite _ ((report _ _).bind fun _ => rest) rest

mutual

def inferExp : (e : Exp) → Trace (CheckM.inferExp e)
  | .nil node => noteExp node (pure _)
  | .int node _ => noteExp node (pure _)
  | .str node _ => noteExp node (pure _)
  | .var node target => noteExp node (inferVar target)
  | .call node function args => noteExp node ((inferExps args).bind fun _ =>
      typeOfCall node function _)
  | .binary node op left right => noteExp node ((inferExp left).bind fun leftType =>
      (inferExp right).bind fun rightType =>
        .observe (CheckM.typeOfBinary_observes op leftType rightType right.start))
  | .record node typeName fields => noteExp node ((typeNamed typeName _).bind fun ty =>
      (inferGiven fields).bind fun given =>
        .observe (CheckM.typeOfRecord_observes ty typeName given _))
  | .seq node exps => noteExp node ((inferExps exps).bind fun _ => pure _)
  | .assign node target value => noteExp node ((inferVar target).bind fun _ =>
      (inferExp value).bind fun _ =>
        .bind (.observe (CheckM.checkAssignable_observes target)) fun _ =>
          (require _ _ _).bind fun _ => pure _)
  | .ifThen node test body => noteExp node ((inferExp test).bind fun _ =>
      (require _ _ _).bind fun _ => (inferExp body).bind fun _ =>
        (require _ _ _).bind fun _ => pure _)
  | .ifThenElse node test yes no => noteExp node ((inferExp test).bind fun _ =>
      (require _ _ _).bind fun _ => (inferExp yes).bind fun yesType =>
        (inferExp no).bind fun noType =>
          .observe (CheckM.typeOfBranches_observes yesType noType no.start))
  | .whileDo node test body => noteExp node ((inferExp test).bind fun _ =>
      (require _ _ _).bind fun _ => (inLoop (inferExp body)).bind fun _ =>
        (require _ _ _).bind fun _ => pure _)
  | .forTo node name lo hi body => noteExp node ((inferExp lo).bind fun _ =>
      (require _ _ _).bind fun _ => (inferExp hi).bind fun _ => (require _ _ _).bind fun _ =>
        (withLoopVar node name (inLoop (inferExp body))).bind fun _ =>
          (require _ _ _).bind fun _ => pure _)
  | .breakLoop node => noteExp node (.observe (CheckM.typeOfBreak_observes _))
  | .letIn node decs body => noteExp node (inScope ((declareBlock decs).bind fun _ =>
      (checkBodies decs).bind fun _ => inferExp body))
  | .array node typeName size init => noteExp node ((typeNamed typeName _).bind fun ty =>
      (inferExp size).bind fun _ => (require _ _ _).bind fun _ =>
        (inferExp init).bind fun initType =>
          .observe (CheckM.typeOfArray_observes ty typeName initType _ _))

def inferVar : (v : Var) → Trace (CheckM.inferVar v)
  | .simple node name => noteVar node (typeOfSimple node name)
  | .field node base name => noteVar node ((inferVar base).bind fun baseType =>
      .observe (CheckM.typeOfField_observes baseType name _))
  | .subscript node base index => noteVar node ((inferVar base).bind fun baseType =>
      (inferExp index).bind fun _ => (require _ _ _).bind fun _ =>
        .observe (CheckM.typeOfSubscript_observes baseType _))

def inferExps : (es : List Exp) → Trace (CheckM.inferExps es)
  | [] => pure _
  | e :: es => (inferExp e).bind fun _ => (inferExps es).bind fun _ => pure _

def inferGiven : (fields : List FieldExp) → Trace (CheckM.inferGiven fields)
  | [] => pure _
  | .mk _ _ value :: fields => (inferExp value).bind fun _ =>
      (inferGiven fields).bind fun _ => pure _

def checkBodies : (decs : List Dec) → Trace (CheckM.checkBodies decs)
  | [] => pure _
  | .var node name typeName init :: decs => (inferExp init).bind fun initType =>
      (declaredType node initType _ typeName).bind fun ty =>
        (declareVar node name ty).bind fun _ => checkBodies decs
  | .type _ _ _ :: decs => checkBodies decs
  | .function node _ params _ body :: decs => get.bind fun s =>
    match s.facts.routine? node.id with
    | none => checkBodies decs
    | some info => (inFunction info.frame (inScope ((declareParams params info.params).bind fun _ =>
        (inferExp body).bind fun _ => require _ _ _))).bind fun _ => checkBodies decs

end

def checkProgram (e : Exp) : Trace (CheckM.checkProgram e) :=
  (inferExp e).bind fun _ => .bind (.write _) fun _ => get.bind fun _ =>
    (tell _).bind fun _ => pure _

end Trace

end TigerLang
