/-! The arguments of the command. -/

namespace TigerLang.CommandLine

inductive Emit
  | binary
  | ir
  | tree
  | check
  deriving DecidableEq, Repr

def Emit.ofName? : String → Option Emit
  | "binary" => some .binary
  | "ir" => some .ir
  | "tree" => some .tree
  | "check" => some .check
  | _ => none

structure Options where
  input : String
  output : Option String
  emit : Emit
  link : Option String
  verify : Bool
  deriving DecidableEq, Repr

inductive Request
  | compile (options : Options)
  | showVersion
  | showHelp (detailed : Bool)
  | misused
  deriving DecidableEq, Repr

inductive Setting
  | output
  | emit
  | link
  deriving DecidableEq, Repr

inductive Argument
  | setting (setting : Setting) (value : Option String)
  | noVerify
  | version
  | help (detailed : Bool)
  | unknown
  | endOfOptions
  | plain (text : String)
  deriving DecidableEq, Repr

namespace Argument

def splitEquals (cs : List Char) : List Char × Option (List Char) :=
  match cs.dropWhile (· != '=') with
  | [] => (cs, none)
  | _ :: value => (cs.takeWhile (· != '='), some value)

def ofLong (name : String) (value : Option String) : Argument :=
  match name, value with
  | "output", _ => .setting .output value
  | "emit", _ => .setting .emit value
  | "link", _ => .setting .link value
  | "no-verify", none => .noVerify
  | "version", none => .version
  | "help", none => .help true
  | _, _ => .unknown

/-- A letter after a single dash. The value of a setting may follow at once, or after an equals
sign; the other letters end the program or are unknown, whatever comes after them. -/
def ofShort : Char → List Char → Argument
  | 'o', [] => .setting .output none
  | 'o', '=' :: value | 'o', value => .setting .output (some (String.ofList value))
  | 'V', _ => .version
  | 'h', _ => .help false
  | _, _ => .unknown

def ofString (text : String) : Argument :=
  match text.toList with
  | ['-', '-'] => .endOfOptions
  | '-' :: '-' :: cs =>
    let (name, value) := splitEquals cs
    ofLong (String.ofList name) (value.map String.ofList)
  | '-' :: c :: cs => ofShort c cs
  | _ => .plain text

end Argument

structure Draft where
  input : Option String := none
  output : Option String := none
  emit : Option Emit := none
  link : Option String := none
  noVerify : Bool := false

namespace Draft

def set (d : Draft) (setting : Setting) (value : String) : Option Draft :=
  match setting with
  | .output =>
    if d.output.isSome || value.isEmpty then none else some { d with output := some value }
  | .link => if d.link.isSome || value.isEmpty then none else some { d with link := some value }
  | .emit =>
    if d.emit.isSome then none
    else (Emit.ofName? value).map fun emit => { d with emit := some emit }

def setInput (d : Draft) (path : String) : Option Draft :=
  if d.input.isSome || path.isEmpty then none else some { d with input := some path }

def finish (d : Draft) : Request :=
  match d.input with
  | none => .misused
  | some input => .compile ⟨input, d.output, d.emit.getD .binary, d.link, !d.noVerify⟩

end Draft

def readPaths (d : Draft) : List String → Request
  | [] => d.finish
  | path :: paths =>
    match d.setInput path with
    | some d => readPaths d paths
    | none => .misused

/-- Reads arguments from left to right. The first that is wrong, or asks for the version or for
help, decides. A value that stands apart from its setting does not look like an option. -/
def readFrom (d : Draft) : List String → Request
  | [] => d.finish
  | arg :: args =>
    match Argument.ofString arg with
    | .endOfOptions => readPaths d args
    | .version => .showVersion
    | .help detailed => .showHelp detailed
    | .unknown => .misused
    | .noVerify => if d.noVerify then .misused else readFrom { d with noVerify := true } args
    | .plain path =>
      match d.setInput path with
      | some d => readFrom d args
      | none => .misused
    | .setting setting (some value) =>
      match d.set setting value with
      | some d => readFrom d args
      | none => .misused
    | .setting setting none =>
      match args with
      | [] => .misused
      | value :: args =>
        match Argument.ofString value with
        | .plain _ =>
          match d.set setting value with
          | some d => readFrom d args
          | none => .misused
        | _ => .misused

def readArguments (args : List String) : Request := readFrom {} args

end TigerLang.CommandLine
