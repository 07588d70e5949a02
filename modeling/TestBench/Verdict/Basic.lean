import TestBench.Unit.Methods

/-!
Verdicts on methods. A method passes or fails, or it cannot be run at all, or
there is nothing to run.
-/
namespace TestBench

structure SourcePlace where
  file : String
  line : Nat
  column : Nat
  deriving DecidableEq, Repr

def SourcePlace.written (p : SourcePlace) : String :=
  p.file ++ ":" ++ toString p.line ++ ":" ++ toString p.column

def MethodSite.sourcePlace (site : MethodSite) : SourcePlace :=
  ⟨site.file.path, site.position.line, site.position.column⟩

inductive SkipReason where
  | compileFailed | methodNotFound | notATest
  deriving DecidableEq, Repr

def SkipReason.text : SkipReason → String
  | .compileFailed => "compile failed"
  | .methodNotFound => "method not found"
  | .notATest => "not a recognized test"

inductive Verdict where
  | passed
  | failed (message : String) (place : SourcePlace)
  | errored (message : String) (place : SourcePlace)
  | skipped (reason : SkipReason)
  deriving DecidableEq, Repr

namespace Verdict

def isPassed (v : Verdict) : Bool := v = .passed

/-- Whether there is something to tell the author of the test. -/
def isReportable : Verdict → Bool
  | .failed .. | .errored .. => true
  | _ => false

def label : Verdict → String
  | .passed => "passed"
  | .failed .. => "failed"
  | .errored .. => "error"
  | .skipped _ => "skipped"

def place? : Verdict → Option SourcePlace
  | .failed _ place | .errored _ place => some place
  | _ => none

/-- The message, or why there is nothing to run. -/
def message? : Verdict → Option String
  | .passed => none
  | .failed message _ | .errored message _ => some message
  | .skipped reason => some reason.text

def display : Verdict → String
  | .passed => "passed"
  | .failed message place => "failed at " ++ place.written ++ ": " ++ message
  | .errored message place => "error at " ++ place.written ++ ": " ++ message
  | .skipped reason => "skipped (" ++ reason.text ++ ")"

end Verdict

end TestBench
