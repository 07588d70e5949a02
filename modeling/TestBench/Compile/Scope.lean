import TestBench.Image.Basic
import TestBench.Unit.Methods

/-!
What the names in a unit may refer to: the types of the unit with their fields
and methods, and the types of the images it was given as interfaces. The second
declaration of a name is a fault and counts for nothing.
-/
namespace TestBench.Compile

/-- What may be declared only once. -/
inductive Declared where
  | type | field | method | parameter | localVariable
  deriving DecidableEq, Repr

def Declared.noun : Declared → String
  | .type => "type"
  | .field => "field"
  | .method => "method"
  | .parameter => "parameter"
  | .localVariable => "local variable"

inductive ScopeFault where
  | duplicate (what : Declared) (name : String)
  | unknownSymbol (name : String)
  | unknownType (name : String)
  | unknownMethod (typeName method : String)
  | arity (callee : String) (expected found : Nat)
  deriving DecidableEq, Repr

namespace ScopeFault

def message : ScopeFault → String
  | .duplicate what name => "Duplicate " ++ what.noun ++ " " ++ quoted name
  | .unknownSymbol name => "Unknown symbol " ++ quoted name
  | .unknownType name => "Unknown type " ++ quoted name
  | .unknownMethod typeName method =>
    "Type " ++ quoted typeName ++ " has no method " ++ quoted method
  | .arity callee expected found =>
    quoted callee ++ " takes " ++ toString expected ++ " argument"
      ++ (if expected = 1 then "" else "s") ++ " but " ++ toString found ++ " "
      ++ (if found = 1 then "was" else "were") ++ " supplied"

def hints : ScopeFault → List String
  | .unknownSymbol _ => ["Declare it as a field, a local with `let`, or a parameter"]
  | .unknownType _ =>
    ["Add a reference to the unit that declares it, or import its namespace with `use`"]
  | _ => []

def diagnostic (f : Spanned ScopeFault) : Diagnostic :=
  ⟨.resolution, f.node.message, f.span, [], f.node.hints⟩

end ScopeFault

abbrev Faults := List (Spanned ScopeFault)

/-- The first of the items under each name, and the faults of the others. -/
def distinct {α : Type} (what : Declared) (name : α → Spanned String) :
    List String → List α → List α × Faults
  | _, [] => ([], [])
  | seen, x :: rest =>
    if seen.contains (name x).node then
      let (kept, faults) := distinct what name seen rest
      (kept, ⟨.duplicate what (name x).node, (name x).span⟩ :: faults)
    else
      let (kept, faults) := distinct what name ((name x).node :: seen) rest
      (x :: kept, faults)

/-- A type of the unit: the file that declares it, its fields and the arities of its methods. -/
structure OwnType where
  fullName : String
  origin : ParsedFile
  decl : Source.ClassDecl
  fields : List String
  methods : List (String × Nat)

namespace OwnType

def fieldIndex? (t : OwnType) (name : String) : Option Nat := t.fields.findIdx? (· == name)

def arity? (t : OwnType) (method : String) : Option Nat :=
  (t.methods.find? (·.1 == method)).map (·.2)

/-- The type that a class declares, and the faults in the names of its members. -/
def ofClass (origin : ParsedFile) (c : Source.ClassDecl) : OwnType × Faults :=
  let (fields, fieldFaults) := distinct .field (fun f => ⟨f.name, f.span⟩) [] c.fields
  let (methods, methodFaults) := distinct .method Source.Method.name [] c.methods
  (⟨origin.program.fullName c.name.node, origin, c, fields.map (·.name),
      methods.map fun m => (m.name.node, m.parameters.length)⟩,
    fieldFaults ++ methodFaults)

end OwnType

/-- The types declared by the classes of a file that none of `known` has the name of. -/
def ownTypesFrom (origin : ParsedFile) :
    List OwnType → List Source.ClassDecl → List OwnType × Faults
  | known, [] => (known, [])
  | known, c :: rest =>
    let fullName := origin.program.fullName c.name.node
    if known.any (·.fullName == fullName) then
      let (types, faults) := ownTypesFrom origin known rest
      (types, ⟨.duplicate .type fullName, c.name.span⟩ :: faults)
    else
      let (t, here) := OwnType.ofClass origin c
      let (types, faults) := ownTypesFrom origin (known ++ [t]) rest
      (types, here ++ faults)

/-- The types declared by all files, and the faults with the files they are in. -/
def ownTypes : List OwnType → List ParsedFile → List OwnType × List FileDiagnostic
  | known, [] => (known, [])
  | known, origin :: rest =>
    let (types, here) := ownTypesFrom origin known origin.program.classes
    let (all, later) := ownTypes types rest
    (all, here.map (⟨origin.file, ScopeFault.diagnostic ·⟩) ++ later)

structure Scope where
  unitName : String
  types : List OwnType
  interfaces : List Image

namespace Scope

/-- The full names that a written type name may stand for: itself, then in the file's namespace,
then in each namespace that the file uses. -/
def candidates (p : Source.Program) (written : String) : List String :=
  written :: (p.space.toList ++ p.uses).map fun space => space.node.written ++ "." ++ written

def declares (s : Scope) (fullName : String) : Bool := s.types.any (·.fullName == fullName)

/-- The unit that declares a type: this one, or else the first interface that has it. -/
def home? (s : Scope) (fullName : String) : Option String :=
  if s.declares fullName then some s.unitName
  else (s.interfaces.find? fun i => (i.type? fullName).isSome).map (·.name)

/-- The unit and the full name of the type that a name in a file refers to. -/
def resolve? (s : Scope) (p : Source.Program) (written : String) : Option (String × String) :=
  (candidates p written).findSome? fun fullName => (s.home? fullName).map (·, fullName)

def arity? (s : Scope) (unit fullName method : String) : Option Nat :=
  if unit = s.unitName then
    (s.types.find? (·.fullName == fullName)).bind (·.arity? method)
  else do
    let interface ← s.interfaces.find? (·.name == unit)
    let t ← interface.type? fullName
    let m ← t.method? method
    return m.arity

end Scope

end TestBench.Compile
