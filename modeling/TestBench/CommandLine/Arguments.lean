import TestBench.CommandLine.Options
import TestBench.Path
import TestBench.Verdict.Settings

/-!
The arguments of the two programs. One checks or builds a unit; the other runs
a single test.
-/
namespace TestBench.CommandLine

/-- The files of a unit, what it refers to, and its name if that is not to be derived. -/
structure UnitArguments where
  files : List String
  references : List String
  name : Option String
  deriving DecidableEq, Repr

/-- The given name of a unit, or else the stem of its first file. -/
def UnitArguments.unitName? (a : UnitArguments) : Option String :=
  a.name.or do
    let first ← a.files.head?
    return String.ofList (← Path.stem? first.toList)

inductive Request where
  | check (unit : UnitArguments) (runner : Option String) (processCache verbose : Bool)
  | build (unit : UnitArguments) (out : String)
  deriving DecidableEq, Repr

structure RunnerArguments where
  entry : String
  filter : String
  maxCallDepth : Nat
  deriving DecidableEq, Repr

namespace Parameter

def files : Parameter := ⟨"", none, "FILES", .multiple, true, .nonempty⟩

def reference : Parameter := ⟨"reference", some 'r', "REF", .multiple, false, .nonempty⟩

def unitName : Parameter := ⟨"name", none, "NAME", .single, false, .any⟩

def runner : Parameter := ⟨"runner", none, "PATH", .single, false, .nonempty⟩

def processCache : Parameter := ⟨"process-cache", none, "", .switch, false, .any⟩

def verbose : Parameter := ⟨"verbose", some 'v', "", .switch, false, .any⟩

def out : Parameter := ⟨"out", none, "DIR", .single, true, .nonempty⟩

def entry : Parameter := ⟨"", none, "ENTRY", .single, true, .nonempty⟩

def filter : Parameter := ⟨"where", none, "FQN", .single, true, .any⟩

def maxCallDepth : Parameter :=
  ⟨"max-call-depth", none, "N", .single, false, .satisfying (callDepth? · |>.isSome)
    ("expected an integer from 1 to " ++ toString Machine.callDepthCeiling)⟩

end Parameter

namespace Request

def checkUsage : Usage :=
  ⟨"tddlive check", [.reference, .unitName, .runner, .processCache, .verbose, .help], .files⟩

def buildUsage : Usage := ⟨"tddlive build", [.reference, .unitName, .out, .help], .files⟩

def unit (r : Reading) : UnitArguments :=
  ⟨r.valuesOf .files, r.valuesOf .reference, (r.valuesOf .unitName).head?⟩

def ofCheck (words : List String) : Except UsageFault Request := do
  let r ← checkUsage.read words
  return .check (unit r) (r.valuesOf .runner).head? (r.has .processCache) (r.has .verbose)

def ofBuild (words : List String) : Except UsageFault Request := do
  let r ← buildUsage.read words
  return .build (unit r) ((r.valuesOf .out).headD "")

def commands : List String := ["check", "build", "help"]

/-- Help is there for each command, but commands have no further commands. -/
def helpFault : List String → UsageFault
  | [] => .helpRequested
  | command :: rest =>
    if commands.contains command then
      match rest with
      | [] => .helpRequested
      | other :: _ => .unknownCommand other
    else .unknownCommand command

/-- A line that begins with two dashes has no place for a command. -/
def escapedFault : List String → UsageFault
  | [] => .nothingGiven
  | word :: _ =>
    if commands.contains word then .unknownArgument word none else .unknownCommand word

/-- What is wrong with a line that does not begin with a command. -/
def openingFault (word : String) (rest : List String) : UsageFault :=
  match word.toList with
  | ['-', '-'] => escapedFault rest
  | '-' :: '-' :: name =>
    match Reading.splitName name with
    | ("help", none) => .helpRequested
    | ("version", none) => .versionRequested
    | ("help", some value) => .unexpectedValue value "--help"
    | ("version", some value) => .unexpectedValue value "--version"
    | (other, _) => .unknownArgument ("--" ++ other) none
  | '-' :: 'h' :: _ => .helpRequested
  | '-' :: 'V' :: _ => .versionRequested
  | '-' :: c :: _ => .unknownArgument (String.ofList ['-', c]) none
  | _ => .unknownCommand word

/-- The request of a command line, which begins behind the name of the program. -/
def ofWords : List String → Except UsageFault Request
  | [] => .error .nothingGiven
  | "check" :: rest => ofCheck rest
  | "build" :: rest => ofBuild rest
  | "help" :: rest => .error (helpFault rest)
  | word :: rest => .error (openingFault word rest)

/-- What a fault of a command line looks like to a reader. -/
def explain (words : List String) (f : UsageFault) : String :=
  match words.head? with
  | some "check" => checkUsage.explain f
  | some "build" => buildUsage.explain f
  | _ => f.render "tddlive <COMMAND>"

end Request

def version : String := "tddlive 0.1.0"

/-- What is printed instead of doing anything. -/
def printedFor : UsageFault → String
  | .versionRequested => version ++ "\n"
  | _ => ""

namespace RunnerArguments

def usage : Usage := ⟨"tddlive-runner", [.filter, .maxCallDepth, .help], .entry⟩

def ofWords (words : List String) : Except UsageFault RunnerArguments := do
  let r ← usage.read words
  let depth := (r.valuesOf .maxCallDepth).head?.bind callDepth?
  return ⟨(r.valuesOf .entry).headD "", (r.valuesOf .filter).headD "",
    depth.getD Machine.defaultCallDepth⟩

end RunnerArguments

end TestBench.CommandLine
