import TestBench.CommandLine.Arguments
import TestBench.Verdict.Reporter
import TestBench.Verdict.Tally

/-!
The commands. Checking a unit gives a verdict on each of its methods; building
it writes every image of its closure to a directory. What a command prints
before it fails stays printed.
-/
namespace TestBench.CommandLine

inductive CommandFault where
  | noUnitName
  | unreadable (error : FileError)
  | missingReference (path : String)
  | badSettings (fault : SettingsFault)
  | unbuilt (fault : MaterializeFault)
  | noDirectory (path : String) (error : FileError)
  | unwritable (path : String) (error : FileError)
  deriving DecidableEq, Repr

namespace CommandFault

/-- Diagnostics are shown with their source lines, anything else in one line. -/
def message : CommandFault → String
  | .noUnitName => "Error: cannot derive a unit name; pass --name"
  | .unreadable error => "Error reading source files: " ++ error.message
  | .missingReference path => "Error: referenced image '" ++ path ++ "' does not exist"
  | .badSettings fault => "Error: " ++ fault.message
  | .unbuilt (.compile _ diagnostics) =>
    let rendered := String.join (diagnostics.map (·.render))
    String.ofList (Text.trimEnd rendered.toList)
  | .unbuilt fault => "Error: " ++ fault.message
  | .noDirectory path error =>
    "Error creating output directory '" ++ path ++ "': " ++ error.message
  | .unwritable path error => "Error writing '" ++ path ++ "': " ++ error.message

def exitCode : Nat := 1

end CommandFault

/-- What commands work with besides the files. -/
structure Surroundings where
  lookup : String → Option String
  order : Materialize.Order
  directories : TemporaryDirectories
  launch : Launch
  fuel : Nat

/-- What a command did: the files as they are now, the lines it printed, the findings it
reported, and its exit code. -/
structure Finished where
  files : Files
  lines : List String
  findings : List Finding
  status : Except CommandFault Nat

namespace Finished

def failed (files : Files) (fault : CommandFault) : Finished := ⟨files, [], [], .error fault⟩

def stdout (f : Finished) : String := String.join (f.lines.map (· ++ "\n"))

def exitCode (f : Finished) : Nat :=
  match f.status with
  | .ok code => code
  | .error _ => CommandFault.exitCode

end Finished

def readSources (files : Files) (paths : List String) : Except CommandFault (List SourceFile) :=
  paths.mapM fun path =>
    match files.readText path with
    | .ok text => .ok ⟨path, text⟩
    | .error e => .error (.unreadable e)

/-- The unit that arguments describe. -/
def loadUnit (files : Files) (a : UnitArguments) : Except CommandFault SourceUnit := do
  match a.unitName? with
  | none => throw .noUnitName
  | some name =>
    let sources ← readSources files a.files
    match a.references.find? (!files.isFile ·) with
    | some path => throw (.missingReference path)
    | none => return .mk name sources (a.references.map .binary)

/-- The settings of the environment under those of the command line. -/
def settingsFor (s : Surroundings) (runner : Option String) (processCache : Bool) :
    Except CommandFault Settings := do
  let settings ← (Settings.ofVariables s.lookup).mapError .badSettings
  let execution := match runner with
    | some program => .external program
    | none => settings.execution
  let scope := if processCache then .processWide else settings.scope
  return { settings with execution, scope }

def built (order : Materialize.Order) (files : Files) (u : SourceUnit) :
    Except CommandFault Closure :=
  (materialize order files Store.empty u).1.mapError .unbuilt

def verdictLine (method : MethodRef) (v : Verdict) : String :=
  v.label ++ "".pushn ' ' (8 - v.label.length) ++ " " ++ method.written

/-- The verdicts on methods one after the other. -/
def verdicts (r : Reporter) (u : SourceUnit) :
    List MethodRef → World → Option (World × List (MethodRef × Verdict))
  | [], world => some (world, [])
  | method :: rest, world =>
    match r.evaluate world u method with
    | (_, none) => none
    | (world, some v) =>
      (verdicts r u rest world).map fun (world, others) => (world, (method, v) :: others)

def check (s : Surroundings) (files : Files) (a : UnitArguments) (runner : Option String)
    (processCache verbose : Bool) : Option Finished :=
  let prepared : Except CommandFault (SourceUnit × Settings) := do
    let u ← loadUnit files a
    let settings ← settingsFor s runner processCache
    let _ ← built s.order files u
    return (u, settings)
  match prepared with
  | .error fault => some (.failed files fault)
  | .ok (u, settings) =>
    let reporter : Reporter := ⟨settings, Framework.all, s.order, s.directories, s.launch, s.fuel⟩
    (verdicts reporter u u.methods ⟨files, Store.empty⟩).map fun (world, found) =>
      let tally := Tally.ofVerdicts (found.map (·.2))
      let shown := if verbose then found.map fun (m, v) => verdictLine m v else []
      ⟨world.files, shown ++ [tally.written],
        found.filterMap fun (m, v) => Finding.ofVerdict? u m v, .ok tally.exitCode⟩

/-- Writes images up to the first that cannot be written. -/
def writeImages (directory : String) : List (String × StoredImage) → Files → Finished
  | [], files => ⟨files, [], [], .ok 0⟩
  | (name, image) :: rest, files =>
    let path := Path.join directory (Image.fileName name)
    match files.write path image.bytes with
    | .error e => .failed files (.unwritable path e)
    | .ok files =>
      let others := writeImages directory rest files
      let line := "wrote " ++ path ++ " (" ++ String.ofList (image.digest.toList.take 12) ++ ")"
      { others with lines := line :: others.lines }

def build (order : Materialize.Order) (files : Files) (a : UnitArguments) (out : String) :
    Finished :=
  match loadUnit files a >>= built order files with
  | .error fault => .failed files fault
  | .ok closure =>
    match files.ensureDirectory out with
    | (files, .error e) => .failed files (.noDirectory out e)
    | (files, .ok ()) => writeImages out closure.images.entries files

/-- Does what is requested, unless it does not end. -/
def perform (s : Surroundings) (files : Files) : Request → Option Finished
  | .check unit runner processCache verbose => check s files unit runner processCache verbose
  | .build unit out => some (build s.order files unit out)

end TestBench.CommandLine
