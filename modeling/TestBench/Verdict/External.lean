import TestBench.Programs.Basic
import TestBench.Sandbox.Scratch
import TestBench.Verdict.Basic
import TestBench.Verdict.Report
import TestBench.Verdict.Settings

/-!
Verdicts by an external program. The closure is written to a scratch area, the
program is started there and asked for one test, and its output tells how the
test went.
-/
namespace TestBench

namespace External

def filterFlag : String := "--where"

/-- A failure report decides; without one, the exit status does. -/
def verdictOf (place : SourcePlace) (output : ProgramOutput) : Verdict :=
  match Report.failureSection? (Utf8.toStringLossy output.stdout) with
  | some details => .failed details place
  | none =>
    if output.status.isSuccess then .passed
    else .errored ("test runner exited with " ++ output.status.written
      ++ " without a failure report: " ++ Text.trimString (Utf8.toStringLossy output.stderr)) place

def run (directories : TemporaryDirectories) (launch : Launch) (files : Files) (program : String)
    (closure : Closure) (method : MethodRef) (place : SourcePlace) (options : ExecutionOptions) :
    Files × Option Verdict :=
  match Scratch.create directories files options.scratchRoot with
  | (files, .error e) =>
    (files, some (.errored ("failed to prepare scratch area: " ++ e.message) place))
  | (files, .ok area) =>
    match area.persist closure.images.entries files with
    | (files, .error e) =>
      (directories.remove area files,
        some (.errored ("failed to persist closure: " ++ e.message) place))
    | (files, .ok ()) =>
      let arguments := [Image.fileName closure.entry, filterFlag, method.written]
      match launch files area.path program arguments with
      | (files, none) => (directories.remove area files, none)
      | (files, some (.error e)) =>
        (directories.remove area files, some (.errored
          ("failed to start test runner '" ++ program ++ "': " ++ e.message) place))
      | (files, some (.ok output)) =>
        (directories.remove area files, some (verdictOf place output))

end External

end TestBench
