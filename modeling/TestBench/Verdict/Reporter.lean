import TestBench.Store.Materialize
import TestBench.Verdict.External
import TestBench.Verdict.Framework

/-!
From a method of a unit to its verdict. The method is found in the source, a
framework says how to run it, and the closure of its unit is run in a sandbox
or handed to an external program.
-/
namespace TestBench

/-- What verdicts depend on besides the unit: the surroundings, and the fuel of a run. -/
structure Reporter where
  settings : Settings
  frameworks : List Framework
  order : Materialize.Order
  directories : TemporaryDirectories
  launch : Launch
  fuel : Nat

/-- What verdicts may change. -/
structure World where
  files : Files
  store : Store

namespace Reporter

def runInProcess (r : Reporter) (files : Files) (closure : Closure) (plan : FixturePlan)
    (place : SourcePlace) : Files × Option Verdict :=
  match Sandbox.openEntry r.directories files closure closure.entry r.settings.options with
  | (files, .error fault) => (files, some (.errored fault.message place))
  | (files, .ok sandbox) =>
    let verdict := (plan.run sandbox.machine r.fuel).map fun outcome =>
      match outcome.failure with
      | none => .passed
      | some failure =>
        if failure.fault.isLoadFailure then .errored failure.message place
        else .failed failure.message place
    (sandbox.close r.directories files, verdict)

/-- The verdict on a closure, by the framework that can run the method. -/
def judge (r : Reporter) (files : Files) (closure : Closure) (site : MethodSite)
    (framework : Framework) : Files × Option Verdict :=
  match r.settings.execution with
  | .inProcess =>
    let plan := framework.plan site.method.typeName site.method.methodName site.siblings
    r.runInProcess files closure plan site.sourcePlace
  | .external program =>
    External.run r.directories r.launch files program closure site.method site.sourcePlace
      r.settings.options

/-- The verdict on a method. Only a store that is kept by the process is read and changed. -/
def evaluate (r : Reporter) (world : World) (u : SourceUnit) (method : MethodRef) :
    World × Option Verdict :=
  match u.parse with
  | .error _ => (world, some (.skipped .compileFailed))
  | .ok _ =>
    match u.site? method with
    | none => (world, some (.skipped .methodNotFound))
    | some site =>
      match Framework.select r.frameworks site.summary with
      | none => (world, some (.skipped .notATest))
      | some framework =>
        let shared := r.settings.scope = .processWide
        let (closure, after) :=
          materialize r.order world.files (if shared then world.store else Store.empty) u
        let store := if shared then after else world.store
        match closure with
        | .error _ => (⟨world.files, store⟩, some (.skipped .compileFailed))
        | .ok closure =>
          let (files, verdict) := r.judge world.files closure site framework
          (⟨files, store⟩, verdict)

end Reporter

end TestBench
