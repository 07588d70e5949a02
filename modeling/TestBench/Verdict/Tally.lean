import TestBench.Verdict.Basic

/-!
What is told about the verdicts on many methods: how many there are of each
kind, and a finding for each test that did not pass.
-/
namespace TestBench

structure Tally where
  passed : Nat
  failed : Nat
  errored : Nat
  skipped : Nat
  deriving DecidableEq, Repr

namespace Tally

def empty : Tally := ⟨0, 0, 0, 0⟩

def add (t : Tally) : Verdict → Tally
  | .passed => { t with passed := t.passed + 1 }
  | .failed .. => { t with failed := t.failed + 1 }
  | .errored .. => { t with errored := t.errored + 1 }
  | .skipped _ => { t with skipped := t.skipped + 1 }

def ofVerdicts (verdicts : List Verdict) : Tally := verdicts.foldl add empty

/-- One as soon as a test failed or could not be run. -/
def exitCode (t : Tally) : Nat := if 0 < t.failed + t.errored then 1 else 0

def written (t : Tally) : String :=
  toString t.passed ++ " passed, " ++ toString t.failed ++ " failed, "
    ++ toString t.errored ++ " errors, " ++ toString t.skipped ++ " skipped"

end Tally

inductive Finding.Kind where
  | failed | errored
  deriving DecidableEq, Repr

/-- A test that did not pass, and where it is declared if that is known. -/
structure Finding where
  method : MethodRef
  kind : Finding.Kind
  message : String
  site : Option MethodSite
  deriving DecidableEq, Repr

namespace Finding

def Kind.code : Kind → String
  | .failed => "tddlive::failed"
  | .errored => "tddlive::error"

def Kind.outcome : Kind → String
  | .failed => "failed"
  | .errored => "could not run"

def Kind.label : Kind → String
  | .failed => "test failed here"
  | .errored => "test could not be loaded"

def written (f : Finding) : String :=
  f.method.written ++ " " ++ f.kind.outcome ++ ": " ++ f.message

/-- The finding of a verdict on a method of a unit. -/
def ofVerdict? (u : SourceUnit) (method : MethodRef) : Verdict → Option Finding
  | .failed message _ => some ⟨method, .failed, message, u.site? method⟩
  | .errored message _ => some ⟨method, .errored, message, u.site? method⟩
  | _ => none

end Finding

end TestBench
