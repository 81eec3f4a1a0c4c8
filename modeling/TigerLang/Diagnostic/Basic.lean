import TigerLang.Source.Position
import TigerLang.Text.Quoted

/-! What can be wrong with a program, and how it is put into words. -/

namespace TigerLang

inductive NameKind
  | variable
  | function
  | type
  | field
  deriving DecidableEq, Repr

def NameKind.word : NameKind → String
  | .variable => "variable"
  | .function => "function"
  | .type => "type"
  | .field => "field"

inductive Cause
  | unrecognised (token : String)
  | unexpected (token : String)
  | unexpectedBecause (token message : String)
  | badNumber (token : String)
  | unterminatedComment
  | undefinedName (kind : NameKind) (name : String)
  | redefinition (kind : NameKind) (name : String)
  | typeMismatch (expected received : String)
  | arityMismatch (expected received : Nat)
  | cyclicType (name : String)
  | misuse (message : String)
  | codegen (message : String)
  deriving DecidableEq, Repr

structure Diagnostic where
  cause : Cause
  position : Position
  deriving DecidableEq, Repr

namespace Cause
open Text

def title : Cause → String
  | unrecognised _ => "UnrecognisedToken"
  | unexpected _ => "UnexpectedToken"
  | unexpectedBecause _ _ => "UnexpectedTokenDetailed"
  | badNumber _ => "NumberParseError"
  | unterminatedComment => "UnterminatedComment"
  | undefinedName _ _ => "UndefinedName"
  | redefinition _ _ => "RedefinitionError"
  | typeMismatch _ _ => "TypeMismatch"
  | arityMismatch _ _ => "ArityMismatch"
  | cyclicType _ => "CyclicTypeDefinition"
  | misuse _ => "KindError"
  | codegen _ => "CodegenError"

def text : Cause → String
  | unrecognised token => "unrecognised token: " ++ quoted token
  | unexpected token => "unexpected token: " ++ quoted token
  | unexpectedBecause token message =>
    "unexpected token (" ++ quoted message ++ "): " ++ quoted token
  | badNumber token => "error parsing number: " ++ quoted token
  | unterminatedComment => "unterminated comment"
  | undefinedName kind name => quoted name ++ " is not a " ++ kind.word
  | redefinition kind name => kind.word ++ " " ++ quoted name ++ " already declared"
  | typeMismatch expected received =>
    "types do not match: expected " ++ quoted expected ++ ", received " ++ quoted received
  | arityMismatch expected received =>
    "wrong number of values: expected " ++ expected.repr ++ ", received " ++ received.repr
  | cyclicType name => "cyclic type definition of " ++ quoted name
  | misuse message => message
  | codegen message => "code generation failed: " ++ message

def tip : Cause → Option String
  | unrecognised _ => none
  | unexpected token => some ("Unexpected token: `" ++ token ++ "`")
  | unexpectedBecause token message =>
    some ("Unexpected token: `" ++ token ++ "`, " ++ message)
  | badNumber token =>
    some ("Invalid number: `" ++ token ++ "`, is it above the integer limit?")
  | unterminatedComment => some "Comment is missing its closing `*/`"
  | undefinedName kind name => some ("`" ++ name ++ "` is not a declared " ++ kind.word)
  | redefinition kind name =>
    some (kind.word ++ " `" ++ name ++ "` is already declared in this scope")
  | typeMismatch expected received =>
    some ("Expected type `" ++ expected ++ "`, received `" ++ received ++ "`")
  | arityMismatch expected received =>
    some ("Expected " ++ expected.repr ++ " values, received " ++ received.repr)
  | cyclicType name =>
    some ("Type `" ++ name ++ "` is defined in terms of itself without a record in between")
  | misuse message => some message
  | codegen _ => none

end Cause

namespace Diagnostic

def message (d : Diagnostic) : String := d.cause.title ++ ": " ++ d.cause.text

def ofCodegen (message : String) : Diagnostic := ⟨.codegen message, .nowhere⟩

end Diagnostic

end TigerLang
