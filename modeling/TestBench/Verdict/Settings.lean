import TestBench.Sandbox.Basic
import TestBench.Text.Blank

/-!
Settings and the environment variables that change them. A variable that is
blank counts as not set.
-/
namespace TestBench

/-- How long the images in a store are kept. -/
inductive CacheScope where
  | perInvocation | processWide
  deriving DecidableEq, Repr

inductive ExecutionMode where
  | inProcess
  | external (program : String)
  deriving DecidableEq, Repr

structure Settings where
  scope : CacheScope
  execution : ExecutionMode
  scratchRoot : Option String
  maxCallDepth : Nat
  deriving DecidableEq, Repr

inductive SettingsFault where
  | cacheScope (value : String)
  | maxCallDepth (value : String)
  deriving DecidableEq, Repr

namespace SettingsFault

def message : SettingsFault → String
  | .cacheScope value =>
    "invalid TDDLIVE_CACHE_SCOPE '" ++ value ++ "' (expected 'invocation' or 'process')"
  | .maxCallDepth value =>
    "invalid TDDLIVE_MAX_CALL_DEPTH '" ++ value ++ "' (expected an integer from 1 to "
      ++ toString Machine.callDepthCeiling ++ ")"

end SettingsFault

/-- A depth that calls may be limited to. -/
def callDepth? (value : String) : Option Nat :=
  (Text.natural? (Text.trim value.toList)).filter fun n =>
    1 ≤ n ∧ n ≤ Machine.callDepthCeiling

namespace Settings

def default : Settings := ⟨.perInvocation, .inProcess, none, Machine.defaultCallDepth⟩

/-- The settings with the nearest depth that is allowed. -/
def withMaxCallDepth (s : Settings) (depth : Nat) : Settings :=
  { s with maxCallDepth := max 1 (min depth Machine.callDepthCeiling) }

def options (s : Settings) : ExecutionOptions := ⟨s.scratchRoot, s.maxCallDepth⟩

def scope? (value : String) : Option CacheScope :=
  let word := String.ofList ((Text.trim value.toList).map Char.toLower)
  if word = "invocation" ∨ word = "per-invocation" then some .perInvocation
  else if word = "process" ∨ word = "process-wide" then some .processWide
  else none

def scopeVariable : String := "TDDLIVE_CACHE_SCOPE"

def runnerVariable : String := "TDDLIVE_RUNNER"

def scratchVariable : String := "TDDLIVE_SCRATCH_DIR"

def depthVariable : String := "TDDLIVE_MAX_CALL_DEPTH"

/-- The environment variables that are read. -/
def variableNames : List String :=
  [scopeVariable, runnerVariable, scratchVariable, depthVariable]

/-- The settings under environment variables; a wrong scope is reported before a wrong depth. -/
def ofVariables (lookup : String → Option String) : Except SettingsFault Settings := do
  let given (key : String) : Option String :=
    (lookup key).filter fun value => Text.trim value.toList ≠ []
  let scope ← match given scopeVariable with
    | none => pure default.scope
    | some value => match scope? value with
      | some scope => pure scope
      | none => throw (.cacheScope value)
  let execution := match given runnerVariable with
    | none => default.execution
    | some program => .external program
  let maxCallDepth ← match given depthVariable with
    | none => pure default.maxCallDepth
    | some value => match callDepth? value with
      | some depth => pure depth
      | none => throw (.maxCallDepth value)
  return ⟨scope, execution, given scratchVariable, maxCallDepth⟩

end Settings

end TestBench
