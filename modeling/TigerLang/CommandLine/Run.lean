import TigerLang.CommandLine.Arguments
import TigerLang.CommandLine.Directory
import TigerLang.CommandLine.Help
import TigerLang.CommandLine.Log
import TigerLang.Analysis
import TigerLang.Diagnostic.Render

/-! The command: what it prints and how it ends, given the files it can read. -/

namespace TigerLang.CommandLine

structure Outcome where
  exit : UInt8
  stdout : String
  stderr : String
  deriving DecidableEq, Repr

def readSource (read : String → Except ReadFailure (List UInt8)) (path : String) :
    Except ReadFailure String := do
  match String.fromUTF8? (ByteArray.mk (← read path).toArray) with
  | some source => return source
  | none => throw .notText

def report (diagnostics : List Diagnostic) (source path : String) : String :=
  String.join (diagnostics.map fun d => d.render source) ++
    logError (diagnostics.length.repr ++ " error(s) in " ++ path)

def compileFile (options : Options) (source : String) : Outcome :=
  let analysis := Analysis.ofSource source ((fileName? options.input).getD "input.tig")
  let tree := match options.emit with
    | .tree => analysis.outline.getD ""
    | _ => ""
  if analysis.isOk then
    match options.emit with
    | .tree | .check => ⟨0, tree, ""⟩
    | .binary | .ir => ⟨1, tree, logError "no IR was produced"⟩
  else ⟨1, tree, report analysis.diagnostics source options.input⟩

def runRequest (read : String → Except ReadFailure (List UInt8)) : Request → Outcome
  | .showVersion => ⟨0, versionText, ""⟩
  | .showHelp detailed => ⟨0, if detailed then manualText else helpText, ""⟩
  | .misused => ⟨2, "", usageText⟩
  | .compile options =>
    match readSource read options.input with
    | .error failure =>
      ⟨1, "", logError ("failed to read " ++ options.input ++ ": " ++ failure.text)⟩
    | .ok source => compileFile options source

def run (read : String → Except ReadFailure (List UInt8)) (args : List String) : Outcome :=
  runRequest read (readArguments args)

end TigerLang.CommandLine
