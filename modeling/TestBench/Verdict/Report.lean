import TestBench.Machine.Interpreter
import TestBench.Text.Blank

/-!
The report of a single test. The details of a failure stand between a line with
the failure marker and a line with the settings marker, and are read back from
there without blank lines and without the blanks around each line.
-/
namespace TestBench

namespace Report

def failureMarker : String := "Errors and Failures"

def settingsMarker : String := "Run Settings"

def filesMarker : String := "Test Files"

def summaryMarker : String := "Test Run Summary"

inductive Outcome where
  | passed
  | failed (message : String)
  /-- The test was not found or could not be loaded. -/
  | error (message : String)
  deriving DecidableEq, Repr

namespace Outcome

def exitCode : Outcome → Nat
  | .passed => 0
  | .failed _ => 1
  | .error _ => 2

def message? : Outcome → Option String
  | .passed => none
  | .failed message | .error message => some message

end Outcome

end Report

structure Report where
  entryFile : String
  filter : String
  maxCallDepth : Nat
  outcome : Report.Outcome
  deriving DecidableEq, Repr

namespace Report

/-- The lines about a failure. -/
def failureLines (label filter message : String) : List String :=
  [failureMarker, "", "1) " ++ label ++ " : " ++ filter]
    ++ (Text.lines message.toList).map (fun line => "  " ++ String.ofList line) ++ [""]

def detailLines (r : Report) : List String :=
  match r.outcome with
  | .passed => []
  | .failed message => failureLines "Failed" r.filter message
  | .error message => failureLines "Error" r.filter message

def countLine (passed failed errors : Nat) : String :=
  "  Test Count: 1, Passed: " ++ toString passed ++ ", Failed: " ++ toString failed
    ++ ", Errors: " ++ toString errors

def summaryLines (r : Report) : List String :=
  match r.outcome with
  | .passed => [summaryMarker, "  Overall result: Passed", countLine 1 0 0]
  | .failed _ => [summaryMarker, "  Overall result: Failed", countLine 0 1 0]
  | .error _ => [summaryMarker, "  Overall result: Failed", countLine 0 0 1]

def printedLines (r : Report) : List String :=
  ["tddlive test runner", "", filesMarker, "    " ++ r.entryFile, ""]
    ++ r.detailLines
    ++ [settingsMarker, "    Where: " ++ r.filter,
      "    MaxCallDepth: " ++ toString r.maxCallDepth, ""]
    ++ r.summaryLines

def render (r : Report) : String := String.join (r.printedLines.map (· ++ "\n"))

/-- The lines from a failure marker to the next settings marker. -/
def captured (capturing : Bool) : List (List Char) → List (List Char)
  | [] => []
  | line :: rest =>
    if Text.occursIn failureMarker.toList line then captured true rest
    else if Text.occursIn settingsMarker.toList line then
      if capturing then [] else captured false rest
    else if capturing ∧ Text.trim line ≠ [] then Text.trim line :: captured true rest
    else captured capturing rest

/-- The details of a failure in the output of a test run, if there are any. -/
def failureSection? (output : String) : Option String :=
  match captured false (Text.lines output.toList) with
  | [] => none
  | found => some ("\n".intercalate (found.map String.ofList))

end Report

end TestBench
