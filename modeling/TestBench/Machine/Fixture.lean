import TestBench.Machine.Interpreter

/-!
One test on one instance. The setup method comes before the test and the test
is left out if it faults; the teardown method runs whenever there is an
instance. The first fault is the one that counts.
-/
namespace TestBench

structure FixturePlan where
  typeName : String
  setup : Option String
  test : String
  teardown : Option String
  deriving DecidableEq, Repr

namespace FixturePlan

inductive Stage where
  | instantiate | setup | test | teardown
  deriving DecidableEq, Repr

def Stage.name : Stage → String
  | .instantiate => "instantiate"
  | .setup => "setup"
  | .test => "test"
  | .teardown => "teardown"

structure Failure where
  stage : Stage
  fault : Machine.Fault
  deriving DecidableEq, Repr

def Failure.message (f : Failure) : String := f.fault.root.message

/-- The stages that were attempted, in order, and the first failure. -/
structure Outcome where
  executed : List Stage
  failure : Option Failure
  deriving DecidableEq, Repr

namespace Outcome

def passed (o : Outcome) : Bool := o.failure.isNone

/-- Adds a stage and, unless there is a failure already, its own. -/
def after (o : Outcome) (stage : Stage) (result : Except Machine.Fault Machine.Value) : Outcome :=
  let failure := match o.failure, result with
    | none, .error fault => some ⟨stage, fault⟩
    | earlier, _ => earlier
  ⟨o.executed ++ [stage], failure⟩

end Outcome

/-- Runs the method of a stage, if it has one, on the instance as the stage before left it. -/
def attempt (m : Machine) (fuel : Nat) (stage : Stage) (method : Option String)
    (state : Outcome × Machine.Instance) : Option (Outcome × Machine.Instance) := do
  match method with
  | none => return state
  | some name =>
    let (result, self) ← m.invoke fuel state.2 name
    return (state.1.after stage result, self)

def run (plan : FixturePlan) (m : Machine) (fuel : Nat) : Option Outcome := do
  match ← m.instantiate fuel m.entry plan.typeName with
  | .error fault => return ⟨[.instantiate], some ⟨.instantiate, fault⟩⟩
  | .ok self =>
    let state ← attempt m fuel .setup plan.setup (⟨[.instantiate], none⟩, self)
    let test := if state.1.passed then some plan.test else none
    let state ← attempt m fuel .test test state
    let state ← attempt m fuel .teardown plan.teardown state
    return state.1

end FixturePlan

end TestBench
