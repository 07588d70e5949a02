import TestBench.CommandLine.Commands
import TestBench.Programs.Directories
import TestBench.Programs.Launch

/-!
The programs themselves. They look at the files that a command line is about,
let the library work on these, and write back what has changed. The name of
the program decides whether it is the runner of single tests.
-/
namespace TestBench.Main

def fuel : Nat := 1 <<< 60

/-- The number of the error that says that there is a directory at a path. -/
def isDirectoryCode : UInt32 := 21

/-- Takes in what is at a path, if anything is. -/
def takeIn (files : Files) (place : Location) (path : String) : IO Files := do
  try
    let bytes ← IO.FS.readBinFile path
    return files.putFile place bytes.toList true
  catch
    | .inappropriateType _ code _ =>
      return if code = isDirectoryCode then files.putDirectory place else files
    | _ => return files

def pathOf (place : Location) : String := "/" ++ "/".intercalate place

/-- Where a path leads to by its text alone. -/
def placeOf (workingDirectory : Location) (path : String) : Location :=
  (Path.components path.toList).foldl (fun place c => match c with
    | .root => []
    | .current => place
    | .parent => place.dropLast
    | .name text => place ++ [String.ofList text]) workingDirectory

/-- Takes in what is at a path and at the directories above it. -/
def look (files : Files) (path : String) : IO Files := do
  let place := placeOf files.workingDirectory path
  (List.range (place.length + 1)).foldlM
    (fun files n => takeIn files (place.take n) (pathOf (place.take n))) files

/-- Takes in a directory with the files in it. -/
def lookInside (files : Files) (directory : String) : IO Files := do
  let files ← look files directory
  if files.isDirectory directory then
    let found ← (← IO.FS.realPath directory).readDir
    found.toList.foldlM (fun files e => look files (Path.join directory e.fileName)) files
  else return files

def start : IO Files := do
  let here := toString (← IO.currentDir)
  let place := placeOf [] here
  look { Programs.system with workingDirectory := place } here

/-- Writes what is new or different. -/
def writeBack (before after : Files) : IO Unit :=
  (after.root.entriesFrom []).forM fun (place, e) => do
    match e with
    | .directory _ =>
      unless (before.entry? place).any (·.isDirectory) do
        IO.FS.createDirAll (pathOf place)
    | .file n =>
      if before.entry? place ≠ some e ∨ before.bytesOf n ≠ after.bytesOf n then
        IO.FS.writeBinFile (pathOf place) (ByteArray.mk (after.bytesOf n).toArray)
    | _ => pure ()

def environment (names : List String) : IO (List (String × String)) := do
  let found ← names.mapM fun name => return (name, ← IO.getEnv name)
  return found.filterMap fun (name, value) => value.map (name, ·)

def printFault (explained : String) (f : CommandLine.UsageFault) : IO UInt32 := do
  IO.print (CommandLine.printedFor f)
  if f.exitCode ≠ 0 then IO.eprint explained
  return UInt32.ofNat f.exitCode

/-- The paths that a request is about. -/
def pathsOf : CommandLine.Request → List String
  | .check unit runner _ _ => unit.files ++ unit.references ++ runner.toList
  | .build unit out => unit.files ++ unit.references ++ [out]

def performRequest (request : CommandLine.Request) : IO UInt32 := do
  let found ← environment Settings.variableNames
  let scratch := (List.lookup Settings.scratchVariable found).toList
  let files ← (pathsOf request ++ scratch).foldlM look (← start)
  let surroundings : CommandLine.Surroundings :=
    ⟨fun name => List.lookup name found, .sorted, Programs.directories,
      Programs.launch fuel found, fuel⟩
  match CommandLine.perform surroundings files request with
  | none => return 1
  | some finished =>
    writeBack files finished.files
    IO.print finished.stdout
    finished.findings.forM fun f => IO.eprintln f.written
    match finished.status with
    | .ok _ => pure ()
    | .error fault => IO.eprintln fault.message
    return UInt32.ofNat finished.exitCode

def runTest (a : CommandLine.RunnerArguments) : IO UInt32 := do
  let files ← lookInside (← start) (Runner.directoryOf a.entry)
  match Runner.run files fuel a.entry a.filter a.maxCallDepth with
  | none => return 1
  | some report =>
    IO.print report.render
    return UInt32.ofNat report.outcome.exitCode

def isRunner : IO Bool := do
  let name := Path.fileName? (toString (← IO.appPath)).toList
  return name = Path.fileName? Programs.runnerPath.toList

end TestBench.Main

open TestBench TestBench.Main in
def main (words : List String) : IO UInt32 := do
  if ← isRunner then
    match CommandLine.RunnerArguments.ofWords words with
    | .ok a => runTest a
    | .error f => printFault (CommandLine.RunnerArguments.usage.explain f) f
  else
    match CommandLine.Request.ofWords words with
    | .ok request => performRequest request
    | .error f => printFault (CommandLine.Request.explain words f) f
