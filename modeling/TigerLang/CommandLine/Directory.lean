/-! A directory with its files, and what reading a path in it gives. -/

namespace TigerLang.CommandLine

inductive ReadFailure
  | notFound
  | notADirectory
  | isADirectory
  | nameTooLong
  | notText
  | other (text : String)
  deriving DecidableEq, Repr

def ReadFailure.text : ReadFailure → String
  | notFound => "No such file or directory (os error 2)"
  | notADirectory => "Not a directory (os error 20)"
  | isADirectory => "Is a directory (os error 21)"
  | nameTooLong => "File name too long (os error 36)"
  | notText => "stream did not contain valid UTF-8"
  | other text => text

def pathParts (path : String) : List String :=
  (path.toList.splitOn '/').map String.ofList

/-- Steps of a path that lead from one place to another. A dot leads nowhere. -/
def pathSteps (path : String) : List String :=
  (pathParts path).filter fun part => part != "" && part != "."

def fileName? (path : String) : Option String :=
  match (pathSteps path).getLast? with
  | some ".." | none => none
  | some name => some name

/-- Files by the steps that lead to them. The directories are those on the way to a file. -/
structure Directory where
  files : List (List String × List UInt8)

namespace Directory

def settle (steps : List String) : List String :=
  (steps.foldl (fun back step => if step = ".." then back.tail else step :: back) []).reverse

def ofFiles (files : List (String × List UInt8)) : Directory :=
  ⟨files.map fun (path, bytes) => (settle (pathSteps path), bytes)⟩

def file? (d : Directory) (place : List String) : Option (List UInt8) :=
  d.files.reverse.lookup place

def isDirectory (d : Directory) (place : List String) : Bool :=
  place.isEmpty || d.files.any fun (file, _) => place.isPrefixOf file && place != file

def maxNameWidth : Nat := 255

def pathWidthBound : Nat := 4096

/-- Where a walk through the directory has come: inside it, at a place given backwards, or above
it, by a number of levels. -/
inductive Place
  | inside (back : List String)
  | above (levels : Nat)

/-- Goes on from a place along the parts of a path. Nothing is known to be above the directory
but what leads down to it. -/
def follow (d : Directory) : Place → List String → Except ReadFailure (List UInt8)
  | .inside back, [] =>
    match d.file? back.reverse with
    | some bytes => .ok bytes
    | none => .error .isADirectory
  | .above _, [] => .error .isADirectory
  | .inside back, part :: parts =>
    if (d.file? back.reverse).isSome then .error .notADirectory
    else if part = "" ∨ part = "." then d.follow (.inside back) parts
    else if part = ".." then
      match back with
      | [] => d.follow (.above 1) parts
      | _ :: back => d.follow (.inside back) parts
    else if maxNameWidth < part.utf8ByteSize then .error .nameTooLong
    else
      let place := (part :: back).reverse
      if (d.file? place).isSome || d.isDirectory place then d.follow (.inside (part :: back)) parts
      else .error .notFound
  | .above levels, part :: parts =>
    if part = "" ∨ part = "." then d.follow (.above levels) parts
    else if part = ".." then d.follow (.above (levels + 1)) parts
    else if maxNameWidth < part.utf8ByteSize then .error .nameTooLong
    else .error .notFound

def read (d : Directory) (path : String) : Except ReadFailure (List UInt8) :=
  if pathWidthBound ≤ path.utf8ByteSize then .error .nameTooLong
  else match pathParts path with
    | [] | [""] => .error .notFound
    | "" :: parts => d.follow (.above 0) parts
    | parts => d.follow (.inside []) parts

end Directory

end TigerLang.CommandLine
