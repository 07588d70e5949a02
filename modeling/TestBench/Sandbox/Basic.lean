import TestBench.Machine.Fixture
import TestBench.Sandbox.Resolvers

/-!
Sandboxes. The closure is written to a scratch area and the machine is loaded
from the files there; when the sandbox is closed, or cannot be opened, the area
is removed again.
-/
namespace TestBench

inductive SandboxFault where
  | scratch (error : FileError)
  | resolution (fault : ResolutionFault)
  | missingEntry (name : String)
  deriving DecidableEq, Repr

def SandboxFault.message : SandboxFault → String
  | .scratch error => "failed to prepare scratch area: " ++ error.message
  | .resolution fault => fault.message
  | .missingEntry name => "entry image '" ++ name ++ "' is not part of the closure"

structure ExecutionOptions where
  scratchRoot : Option String
  maxCallDepth : Nat
  deriving DecidableEq, Repr

structure Sandbox where
  machine : Machine
  scratch : Scratch

namespace Sandbox

/-- Opens a sandbox on an image of the closure. -/
def openEntry (directories : TemporaryDirectories) (files : Files) (closure : Closure)
    (entry : String) (options : ExecutionOptions) : Files × Except SandboxFault Sandbox :=
  if (closure.get? entry).isNone then (files, .error (.missingEntry entry))
  else match Scratch.create directories files options.scratchRoot with
    | (files, .error e) => (files, .error (.scratch e))
    | (files, .ok area) =>
      match area.persist closure.images.entries files with
      | (files, .error e) => (directories.remove area files, .error (.scratch e))
      | (files, .ok ()) =>
        let resolver := Resolver.ofClosure files area.path closure
        match Machine.load entry resolver options.maxCallDepth with
        | .error fault => (directories.remove area files, .error (.resolution fault))
        | .ok machine => (files, .ok ⟨machine, area⟩)

def close (directories : TemporaryDirectories) (s : Sandbox) (files : Files) : Files :=
  directories.remove s.scratch files

end Sandbox

inductive ExecutionFault where
  | sandbox (fault : SandboxFault)
  | failed (failure : FixturePlan.Failure)
  deriving DecidableEq, Repr

def ExecutionFault.message : ExecutionFault → String
  | .sandbox fault => fault.message
  | .failed failure => failure.stage.name ++ " failed: " ++ failure.message

/-- Runs one method of a fresh instance in a sandbox of its own. -/
def execute (directories : TemporaryDirectories) (files : Files) (fuel : Nat) (closure : Closure)
    (entry typeName method : String) (options : ExecutionOptions) :
    Files × Option (Except ExecutionFault Unit) :=
  match Sandbox.openEntry directories files closure entry options with
  | (files, .error fault) => (files, some (.error (.sandbox fault)))
  | (files, .ok sandbox) =>
    let plan : FixturePlan := ⟨typeName, none, method, none⟩
    let result := (plan.run sandbox.machine fuel).map fun outcome =>
      match outcome.failure with
      | some failure => .error (.failed failure)
      | none => .ok ()
    (sandbox.close directories files, result)

end TestBench
