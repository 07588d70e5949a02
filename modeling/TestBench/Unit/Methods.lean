import TestBench.Unit.Basic

/-!
The methods that a unit declares. A method is named by the full name of its
type and its own name, and the first declaration with both counts.
-/
namespace TestBench

structure MethodRef where
  typeName : String
  methodName : String
  deriving DecidableEq, Repr

def MethodRef.written (r : MethodRef) : String := r.typeName ++ "." ++ r.methodName

/-- What a test framework sees of a method. -/
structure MethodSummary where
  name : String
  attributes : List String
  arity : Nat
  deriving DecidableEq, Repr

def Source.Method.summary (m : Source.Method) : MethodSummary :=
  ⟨m.name.node, Source.attributeNames m.attributes, m.parameters.length⟩

/-- A declared method, the methods of its type in their order, and where its name stands. -/
structure MethodSite where
  method : MethodRef
  summary : MethodSummary
  siblings : List MethodSummary
  span : Span
  file : SourceFile
  deriving DecidableEq, Repr

namespace MethodSite

def position (site : MethodSite) : Position := site.file.position site.span

def place (site : MethodSite) : String := Diagnostic.place site.file.path site.position

end MethodSite

namespace ParsedFile

/-- The method as the class declares it. -/
def siteIn? (parsed : ParsedFile) (method : MethodRef) (c : Source.ClassDecl) :
    Option MethodSite :=
  (c.methods.find? (·.name.node == method.methodName)).map fun m =>
    ⟨method, m.summary, c.methods.map (·.summary), m.name.span, parsed.file⟩

def site? (parsed : ParsedFile) (method : MethodRef) : Option MethodSite :=
  (parsed.program.classes.filter
    (parsed.program.fullName ·.name.node == method.typeName)).findSome? (parsed.siteIn? method)

def methods (parsed : ParsedFile) : List MethodRef :=
  parsed.program.classes.flatMap fun c =>
    c.methods.map fun m => ⟨parsed.program.fullName c.name.node, m.name.node⟩

end ParsedFile

namespace SourceUnit

/-- Where a method is declared, if the unit parses and declares it. -/
def site? (u : SourceUnit) (method : MethodRef) : Option MethodSite :=
  match u.parse with
  | .ok files => files.findSome? (·.site? method)
  | .error _ => none

/-- Every declared method in source order; a unit that does not parse declares none. -/
def methods (u : SourceUnit) : List MethodRef :=
  match u.parse with
  | .ok files => files.flatMap (·.methods)
  | .error _ => []

end SourceUnit

end TestBench
