import TestBench.Files.Change
import TestBench.Programs.Basic
import TestBench.Text.Octets

/-!
From the name of a program to what is run. A file is run by the interpreter that
its first line names, which is a program again, and so on for a few times.
-/
namespace TestBench.Programs

/-- A program that the system comes with, and what it is called with. -/
structure Runnable where
  program : String
  name : List Char
  arguments : List (List Char)
  deriving DecidableEq, Repr

/-- How much of a file is looked at for its interpreter. -/
def startSize : Nat := 256

def interpreterLimit : Nat := 6

def isGap (c : Char) : Bool := c == ' ' || c == '\t'

/-- The interpreter that a file begins with and one argument for it. The name ends at a blank or a
zero byte, the argument at the end of the line. -/
def interpreter? (content : List Char) : Option (List Char × Option (List Char)) :=
  match (content ++ List.replicate (startSize - content.length) '\x00').take startSize with
  | '#' :: '!' :: rest =>
    let isWhole := rest.contains '\n'
    let line := if isWhole then rest.takeWhile (· != '\n') else rest.dropLast
    let shown := line.dropWhile isGap
    let bare := if isWhole then Path.dropTrailing isGap shown else shown
    let name := bare.takeWhile fun c => !isGap c && c != '\x00'
    let argument := ((bare.drop name.length).dropWhile isGap).takeWhile (· != '\x00')
    if bare.isEmpty || (!isWhole && name.length = shown.length) then none
    else some (name, if argument.isEmpty then none else some argument)
  | _ => none

/-- What is run when a path is started. -/
def resolve (files : Files) : Nat → List Char → List Char → List (List Char) →
    Except FileError Runnable
  | 0, _, _, _ => .error .tooManyLinks
  | limit + 1, path, name, arguments => do
    if path.isEmpty then throw .permissionDenied
    match ← files.find (Octets.toString path) with
    | .program p => return ⟨p, name, arguments⟩
    | .file n =>
      if !Files.isExecutableMode (files.modeOf (.file n)) then throw .permissionDenied
      match interpreter? (Octets.ofBytes ((files.bytesOf n).take startSize)) with
      | none => throw .notAProgram
      | some (interpreter, argument) =>
        resolve files limit interpreter interpreter (argument.toList ++ path :: arguments)
    | _ => throw .permissionDenied

def shellPath : List Char := "/bin/sh".toList

/-- What is run when a path is started, and what if it is a text without an interpreter. -/
def resolveText (files : Files) (runsTexts : Bool) (path name : List Char)
    (arguments : List (List Char)) : Except FileError Runnable :=
  match resolve files interpreterLimit path name arguments with
  | .error .notAProgram =>
    if runsTexts then resolve files interpreterLimit shellPath shellPath (path :: arguments)
    else .error .notAProgram
  | found => found

/-- Looks for a name in directories. One that may not be run is remembered while others are
looked at. -/
def searchIn (files : Files) (runsTexts : Bool) (name : List Char)
    (arguments : List (List Char)) :
    List (List Char) → FileError → Except FileError (List Char × Runnable)
  | [], e => .error e
  | directory :: rest, e =>
    let path := Octets.ofString (Path.join (Octets.toString directory) (Octets.toString name))
    match resolveText files runsTexts path name arguments with
    | .ok r => .ok (path, r)
    | .error .notFound | .error .notDirectory => searchIn files runsTexts name arguments rest e
    | .error .permissionDenied =>
      searchIn files runsTexts name arguments rest .permissionDenied
    | .error other => .error other

/-- The path that a name stands for, and what is run. -/
def search (files : Files) (runsTexts : Bool) (directories : List (List Char))
    (name : List Char) (arguments : List (List Char)) : Except FileError (List Char × Runnable) :=
  if name.contains '/' then
    (resolveText files runsTexts name name arguments).map (name, ·)
  else if name.isEmpty then .error .notFound
  else if Files.nameLimit < name.length then .error .nameTooLong
  else searchIn files runsTexts name arguments directories .notFound

def searchPath : String := "/usr/local/sbin:/usr/local/bin:/usr/sbin:/usr/bin:/sbin:/bin"

end TestBench.Programs
