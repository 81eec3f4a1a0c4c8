import TigerLang.Typing.Headings
import TigerLang.Typing.Rules
import TigerLang.Typing.Variables

/-! Checking expressions and declarations. Nothing stops the checker: a mistake is reported, and
what it concerns has the unknown type. -/

namespace TigerLang

namespace CheckM

mutual

def inferExp : Exp → CheckM Ty
  | .nil node => noteExp node (return .nil)
  | .int node _ => noteExp node (return .int)
  | .str node _ => noteExp node (return .string)
  | .var node target => noteExp node (inferVar target)
  | .call node function args => noteExp node do
    typeOfCall node function (← inferExps args)
  | .binary node op left right => noteExp node do
    let leftType ← inferExp left
    let rightType ← inferExp right
    typeOfBinary op leftType rightType right.start
  | .record node typeName fields => noteExp node do
    let ty ← typeNamed typeName node.span.start
    typeOfRecord ty typeName (← inferGiven fields) node.span.start
  | .seq node exps => noteExp node do
    return ((← inferExps exps).getLast?.map Prod.fst).getD .void
  | .assign node target value => noteExp node do
    let targetType ← inferVar target
    let valueType ← inferExp value
    checkAssignable target
    discard (require targetType valueType value.start)
    return .void
  | .ifThen node test body => noteExp node do
    discard (require .int (← inferExp test) test.start)
    discard (require .void (← inferExp body) body.start)
    return .void
  | .ifThenElse node test yes no => noteExp node do
    discard (require .int (← inferExp test) test.start)
    let yesType ← inferExp yes
    let noType ← inferExp no
    typeOfBranches yesType noType no.start
  | .whileDo node test body => noteExp node do
    discard (require .int (← inferExp test) test.start)
    let bodyType ← inLoop (inferExp body)
    discard (require .void bodyType body.start)
    return .void
  | .forTo node name lo hi body => noteExp node do
    discard (require .int (← inferExp lo) lo.start)
    discard (require .int (← inferExp hi) hi.start)
    let bodyType ← withLoopVar node name (inLoop (inferExp body))
    discard (require .void bodyType body.start)
    return .void
  | .breakLoop node => noteExp node (typeOfBreak node.span.start)
  | .letIn node decs body => noteExp node do
    inScope do
      declareBlock decs
      checkBodies decs
      inferExp body
  | .array node typeName size init => noteExp node do
    let ty ← typeNamed typeName node.span.start
    discard (require .int (← inferExp size) size.start)
    let initType ← inferExp init
    typeOfArray ty typeName initType node.span.start init.start

def inferVar : Var → CheckM Ty
  | .simple node name => noteVar node (typeOfSimple node name)
  | .field node base name => noteVar node do
    typeOfField (← inferVar base) name node.span.start
  | .subscript node base index => noteVar node do
    let baseType ← inferVar base
    discard (require .int (← inferExp index) index.start)
    typeOfSubscript baseType node.span.start

def inferExps : List Exp → CheckM (List (Ty × Position))
  | [] => return []
  | e :: es => do
    let ty ← inferExp e
    return (ty, e.start) :: (← inferExps es)

def inferGiven : List FieldExp → CheckM (List GivenField)
  | [] => return []
  | .mk span name value :: fields => do
    let ty ← inferExp value
    return ⟨name, span.start, ty, value.start⟩ :: (← inferGiven fields)

def checkBodies : List Dec → CheckM Unit
  | [] => return
  | .var node name typeName init :: decs => do
    let initType ← inferExp init
    declareVar node name (← declaredType node typeName initType init.start)
    checkBodies decs
  | .type _ _ _ :: decs => checkBodies decs
  | .function node _ params result body :: decs => do
    match (← get).facts.routine? node.id with
    | none => pure ()
    | some info => inFunction info.frame do
        inScope do
          declareParams params info.params
          let bodyType ← inferExp body
          let expected := if result.isSome then info.result else .void
          discard (require expected bodyType body.start)
    checkBodies decs

end

def checkBlock (decs : List Dec) : CheckM Unit := do
  declareBlock decs
  checkBodies decs

def checkProgram (e : Exp) : CheckM Ty := do
  let ty ← inferExp e
  modify fun s => { s with frames := s.frames.closeMain }
  let s ← get
  tell (.checkedProgram (s.registry.nameOf ty) s.diagnostics.size)
  return ty

end CheckM

def check (e : Exp) : Checker := ((CheckM.checkProgram e).run .initial).2

end TigerLang
