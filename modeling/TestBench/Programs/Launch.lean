import TestBench.CommandLine.Arguments
import TestBench.Shell.Run
import TestBench.Verdict.Runner

/-!
The programs that can be started: the runner of single tests at its own path,
those that the system comes with, and the scripts among the files. The reporter
takes what starts programs as a parameter, about which nothing is assumed; this
is the one that the executable passes to it, which plays scripts in memory.
-/
namespace TestBench.Programs

/-- Where the runner of single tests is installed. -/
def runnerPath : String := "/opt/tddlive/bin/tddlive-runner"

/-- A system with its programs and an empty working directory. -/
def system : Files := Files.fresh.install Tools.programNames

/-- A run of the runner, started in a directory. -/
def runTest (fuel : Nat) (files : Files) (directory : String) (arguments : List String) :
    Option ProgramOutput :=
  match CommandLine.RunnerArguments.ofWords arguments with
  | .error fault =>
    let explained := CommandLine.RunnerArguments.usage.explain fault
    let shown := if fault.exitCode = 0 then "" else explained
    some ⟨[], Utf8.ofString shown, .code fault.exitCode⟩
  | .ok a =>
    match files.locate directory with
    | .error _ => none
    | .ok place =>
      (Runner.run { files with workingDirectory := place } fuel a.entry a.filter a.maxCallDepth).map
        fun report => ⟨Utf8.ofString report.render, [], .code report.outcome.exitCode⟩

/-- The variables that programs see when nothing else is said about them. -/
def surroundings : List (String × String) :=
  [("HOME", "/root"), ("LANG", "C.UTF-8"), ("PATH", searchPath)]

/-- A program that is started finds nothing to read, two streams to write to, and variables. -/
def session (files : Files) (place : Location) (environment : List (String × String)) :
    Shell.Session :=
  let memory := (surroundings ++ environment).map fun (name, value) =>
    (name, (⟨some (Octets.ofString value), true, false⟩ : Shell.Variable))
  { files := files
    channels := [.given [], .collector, .collector]
    documents := []
    nextNumber := 0
    arrived := []
    jobs := []
    nextProcess := Shell.Session.processNumber + 1
    trouble := none
    clock := 0
    deadline := none
    shell := Shell.ShellState.start [] [] memory place [(0, 0), (1, 1), (2, 2)] }

def written (s : Shell.Session) (number : Nat) : Bytes :=
  ((s.channels[number]?).map fun c => Octets.toBytes c.written).getD []

def run (fuel : Nat) (files : Files) (place : Location) (environment : List (String × String))
    (r : Runnable) : Files × Option ProgramOutput :=
  let act : Shell.Act ExitStatus := do
    let status ← Shell.Run.start fuel r
    Shell.Run.finish fuel
    return status
  let (result, s) := act.run.run (session files place environment)
  match result with
  | .ok status => (s.files, some ⟨written s 1, written s 2, status⟩)
  | .error _ => (s.files, none)

/-- A name without a slash is looked up among the installed programs only. Programs see the given
variables besides those that are always there. -/
def launch (fuel : Nat) (environment : List (String × String)) : Launch :=
  fun files directory program arguments =>
    if (program :: arguments).any (·.toList.contains '\x00') then
      (files, some (.error .nulInCommand))
    else if program = runnerPath then
      (files, (runTest fuel files directory arguments).map .ok)
    else match files.locate directory with
      | .error e => (files, some (.error e))
      | .ok place =>
        let directories := Path.splitAt ':' searchPath.toList
        match search { files with workingDirectory := place } false directories
            (Octets.ofString program) (arguments.map Octets.ofString) with
        | .error e => (files, some (.error e))
        | .ok (_, r) =>
          let (files, output) := run fuel files place environment r
          (files, output.map .ok)

end TestBench.Programs
