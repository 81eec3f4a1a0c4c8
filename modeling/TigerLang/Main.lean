import TigerLang.CommandLine.Run

/-! The command itself: it reads the file that its arguments name, and prints what comes of it. -/

namespace TigerLang.CommandLine

def readPath (path : String) : IO (Except ReadFailure (List UInt8)) := do
  try
    let bytes ← IO.FS.readBinFile path
    return .ok bytes.toList
  catch
    | .noFileOrDirectory _ _ _ => return .error .notFound
    | .inappropriateType _ code _ =>
      return .error (if code = 21 then .isADirectory else .notADirectory)
    | failure => return .error (.other (toString failure))

end TigerLang.CommandLine

open TigerLang.CommandLine in
def main (args : List String) : IO UInt32 := do
  let request := readArguments args
  let bytes ← match request with
    | .compile options => readPath options.input
    | _ => pure (.error .notFound)
  let outcome := runRequest (fun _ => bytes) request
  IO.print outcome.stdout
  IO.eprint outcome.stderr
  return outcome.exit.toUInt32
