import TestBench.Sandbox.Resolvers
import TestBench.Verdict.Framework
import TestBench.Verdict.Report

/-!
Running one test of an image on disk. What the image refers to is looked up
among the image files beside it, and the setup and teardown methods are found
from the attributes that the image records.
-/
namespace TestBench.Runner

inductive Problem where
  | badEntry (path : String)
  | badFilter (text : String)
  | unlistable (directory : String) (error : FileError)
  | unresolved (fault : ResolutionFault)
  | notFound (filter : String)
  | notATest (filter : String)
  deriving DecidableEq, Repr

namespace Problem

def message : Problem → String
  | .badEntry path => "invalid entry image path '" ++ path ++ "'"
  | .badFilter text =>
    "invalid test filter '" ++ text ++ "' (expected Namespace.Type.method)"
  | .unlistable directory error =>
    "cannot read image directory '" ++ directory ++ "': " ++ error.message
  | .unresolved fault => fault.message
  | .notFound filter => "no test matches '" ++ filter ++ "'"
  | .notATest filter => "'" ++ filter ++ "' is not a runnable test"

end Problem

/-- A type and a method, which the last dot separates. -/
def splitFilter (filter : String) : Except Problem (String × String) :=
  let cs := filter.toList
  let method := (cs.reverse.takeWhile (· != '.')).reverse
  let typeName := cs.take (cs.length - method.length - 1)
  if cs.contains '.' ∧ typeName ≠ [] ∧ method ≠ [] then
    .ok (String.ofList typeName, String.ofList method)
  else .error (.badFilter filter)

/-- The directory that an entry image is in. -/
def directoryOf (entry : String) : String :=
  match Path.parent? entry.toList with
  | some [] | none => "."
  | some directory => String.ofList directory

def load (files : Files) (entry : String) (maxCallDepth : Nat) : Except Problem Machine :=
  match Path.stem? entry.toList with
  | none => .error (.badEntry entry)
  | some name =>
    match Resolver.ofDirectory files (directoryOf entry) with
    | .error e => .error (.unlistable (directoryOf entry) e)
    | .ok resolver =>
      match Machine.load (String.ofList name) resolver maxCallDepth with
      | .error fault => .error (.unresolved fault)
      | .ok machine => .ok machine

def summary (m : Image.Method) : MethodSummary := ⟨m.name, m.attributes, m.arity⟩

/-- How to run the test that a filter names. -/
def planFor (m : Machine) (filter : String) : Except Problem FixturePlan := do
  let (typeName, test) ← splitFilter filter
  match (m.image? m.entry).bind (·.type? typeName) with
  | none => .error (.notFound filter)
  | some t =>
    let siblings := t.methods.map summary
    match siblings.find? (·.name == test) with
    | none => .error (.notFound filter)
    | some found =>
      match Framework.select Framework.all found with
      | none => .error (.notATest filter)
      | some framework => .ok (framework.plan typeName test siblings)

/-- A failure is an error if code was missing. -/
def outcomeOf (o : FixturePlan.Outcome) : Report.Outcome :=
  match o.failure with
  | none => .passed
  | some failure =>
    if failure.fault.isLoadFailure then .error failure.message else .failed failure.message

def outcome (files : Files) (fuel : Nat) (entry filter : String) (maxCallDepth : Nat) :
    Option Report.Outcome :=
  match load files entry maxCallDepth with
  | .error problem => some (.error problem.message)
  | .ok machine =>
    match planFor machine filter with
    | .error problem => some (.error problem.message)
    | .ok plan => (plan.run machine fuel).map outcomeOf

/-- Runs a test and reports on it. -/
def run (files : Files) (fuel : Nat) (entry filter : String) (maxCallDepth : Nat) :
    Option Report :=
  let file := String.ofList ((Path.fileName? entry.toList).getD [])
  (outcome files fuel entry filter maxCallDepth).map (⟨file, filter, maxCallDepth, ·⟩)

end TestBench.Runner
