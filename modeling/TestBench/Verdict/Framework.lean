import TestBench.Machine.Fixture
import TestBench.Unit.Methods

/-!
Test frameworks. A framework gives roles to methods by their attributes; the
name of an attribute is recognized at the end of a declared name, in any case,
with or without the word `Attribute` behind it.
-/
namespace TestBench

inductive Role where
  | test | excluded | setup | teardown
  deriving DecidableEq, Repr

/-- A framework with the attribute names that it recognizes. -/
structure Framework where
  name : String
  attributes : List (String × Role)
  deriving DecidableEq, Repr

namespace Framework

def lower (s : String) : List Char := s.toList.map Char.toLower

def endsWith (text ending : List Char) : Bool := ending.reverse.isPrefixOf text.reverse

/-- Whether a declared attribute is the recognized one. -/
def recognizes (recognized declared : String) : Bool :=
  endsWith (lower declared) (lower recognized)
    || endsWith (lower declared) (lower recognized ++ "attribute".toList)

def hasRole (f : Framework) (declared : List String) (role : Role) : Bool :=
  f.attributes.any fun a => a.2 == role && declared.any (recognizes a.1)

/-- A test attribute and no attribute of tests that cannot be run. -/
def canRun (f : Framework) (m : MethodSummary) : Bool :=
  f.hasRole m.attributes .test && !f.hasRole m.attributes .excluded

/-- The first method in order of declaration with a role. -/
def locate (f : Framework) (siblings : List MethodSummary) (role : Role) : Option String :=
  (siblings.find? fun m => f.hasRole m.attributes role).map (·.name)

/-- How to run a method of a type with these methods. -/
def plan (f : Framework) (typeName test : String) (siblings : List MethodSummary) : FixturePlan :=
  ⟨typeName, f.locate siblings .setup, test, f.locate siblings .teardown⟩

def nunit : Framework :=
  ⟨"NUnit", [("Test", .test), ("TestCase", .excluded), ("TestCaseSource", .excluded),
    ("Theory", .excluded), ("SetUp", .setup), ("TearDown", .teardown)]⟩

def mstest : Framework :=
  ⟨"MSTest", [("TestMethod", .test), ("DataTestMethod", .excluded), ("DataRow", .excluded),
    ("TestInitialize", .setup), ("TestCleanup", .teardown)]⟩

/-- The known frameworks, the preferred one first. -/
def all : List Framework := [nunit, mstest]

/-- The first framework that can run a method. -/
def select (frameworks : List Framework) (m : MethodSummary) : Option Framework :=
  frameworks.find? (·.canRun m)

end Framework

end TestBench
