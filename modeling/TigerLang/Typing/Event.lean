import TigerLang.Diagnostic.Basic

/-! What is worth telling about the course of a compilation. -/

namespace TigerLang

inductive Event
  | tokenized (tokens : Nat)
  | reported (cause : Cause)
  | enteredScope (depth : Nat)
  | resolvedType (name type : String)
  | declaredFunction (name symbol : String)
  | finalizedFrame (name : String) (level slots : Nat)
  | checkedProgram (type : String) (errors : Nat)
  | refused (errors : Nat)
  deriving DecidableEq, Repr

namespace Event

inductive Severity
  | trace
  | debug
  | info
  deriving DecidableEq, Repr

def Severity.name : Severity → String
  | trace => "TRACE"
  | debug => "DEBUG"
  | info => "INFO"

def severity : Event → Severity
  | reported _ | enteredScope _ => .trace
  | tokenized _ | resolvedType _ _ | declaredFunction _ _ | finalizedFrame _ _ _ => .debug
  | checkedProgram _ _ | refused _ => .info

def origin : Event → String
  | tokenized _ | refused _ => "tiger"
  | reported _ | enteredScope _ | declaredFunction _ _ | checkedProgram _ _ =>
    "tiger::type_checker::type_checker"
  | resolvedType _ _ => "tiger::type_checker::resolver"
  | finalizedFrame _ _ _ => "tiger::type_checker::frame"

def kindTitle : NameKind → String
  | .variable => "Variable"
  | .function => "Function"
  | .type => "Type"
  | .field => "Field"

def causeParts : Cause → List (String × String)
  | .unrecognised token | .unexpected token | .badNumber token => [("token", Text.quoted token)]
  | .unexpectedBecause token message =>
    [("token", Text.quoted token), ("message", Text.quoted message)]
  | .unterminatedComment => []
  | .undefinedName kind name | .redefinition kind name =>
    [("kind", kindTitle kind), ("name", Text.quoted name)]
  | .typeMismatch expected received =>
    [("expected", Text.quoted expected), ("received", Text.quoted received)]
  | .arityMismatch expected received =>
    [("expected", expected.repr), ("received", received.repr)]
  | .cyclicType name => [("name", Text.quoted name)]
  | .misuse message | .codegen message => [("message", Text.quoted message)]

def causeRecord (cause : Cause) : String :=
  match causeParts cause with
  | [] => cause.title
  | parts =>
    let texts := parts.map fun (name, value) => name ++ ": " ++ value
    cause.title ++ " \x7b " ++ String.intercalate ", " texts ++ " \x7d"

def message : Event → String
  | tokenized tokens => "tokenized " ++ tokens.repr ++ " tokens"
  | reported cause => "reporting " ++ causeRecord cause
  | enteredScope depth => "entered scope at depth " ++ depth.repr
  | resolvedType name type => "resolved type `" ++ name ++ "` to `" ++ type ++ "`"
  | declaredFunction name symbol => "declared function `" ++ name ++ "` as `" ++ symbol ++ "`"
  | finalizedFrame name level slots =>
    "finalized frame `" ++ name ++ "` at level " ++ level.repr ++ " with " ++ slots.repr ++
      " slot(s)"
  | checkedProgram type errors =>
    "checked program of type `" ++ type ++ "` with " ++ errors.repr ++ " error(s)"
  | refused errors => "checking reported " ++ errors.repr ++ " error(s), skipping codegen"

end Event

end TigerLang
