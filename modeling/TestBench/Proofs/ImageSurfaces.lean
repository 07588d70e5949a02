import TestBench.Proofs.AlikeScopes

/-!
Separate compilation. What a unit sees of an interface is its surface: its name
and, in order, the full names of its types with the names and arities of their
methods. The scope of a unit can be answered from the surfaces alone, also where
types or methods have the same name as others, so interfaces with the same
surfaces give the same image or the same faults in the same order. Code, fields,
attributes, slots and lines of a dependency may change as they like.
-/
namespace TestBench

namespace Image

/-- What is seen of a type from outside. -/
structure TypeSurface where
  fullName : String
  methods : List (String × Nat)
  deriving DecidableEq, Repr

structure Surface where
  name : String
  types : List TypeSurface
  deriving DecidableEq, Repr

def TypeSurface.arity? (t : TypeSurface) (method : String) : Option Nat :=
  (t.methods.find? (·.1 == method)).map (·.2)

def Surface.type? (i : Surface) (fullName : String) : Option TypeSurface :=
  i.types.find? (·.fullName == fullName)

def TypeDecl.surface (t : TypeDecl) : TypeSurface :=
  ⟨t.fullName, t.methods.map fun m => (m.name, m.arity)⟩

def surface (image : Image) : Surface := ⟨image.name, image.types.map TypeDecl.surface⟩

theorem TypeDecl.arity?_surface (t : TypeDecl) (method : String) :
    t.surface.arity? method = (t.method? method).map (·.arity) := by
  rw [TypeSurface.arity?, surface, List.find?_map, Option.map_map]
  rfl

theorem type?_surface (image : Image) (fullName : String) :
    image.surface.type? fullName = (image.type? fullName).map TypeDecl.surface := by
  rw [Surface.type?, surface, List.find?_map]
  rfl

/-- Contents of an image that are not seen from outside. Of a method given here, the name and the
arity count for nothing. -/
structure Insides where
  attributes : TypeDecl → List String
  fields : TypeDecl → List Field
  method : TypeDecl → Method → Method

/-- The image with other contents behind the same surface. -/
def withInsides (image : Image) (x : Insides) : Image :=
  { image with types := image.types.map fun t =>
    { t with
      attributes := x.attributes t
      fields := x.fields t
      methods := t.methods.map fun m => { x.method t m with name := m.name, arity := m.arity } } }

theorem surface_withInsides (image : Image) (x : Insides) :
    (image.withInsides x).surface = image.surface := by
  simp [surface, withInsides, TypeDecl.surface, Function.comp_def]

end Image

namespace Compile

open Image (Surface)

/-- The first interface that has a type, by the surfaces. -/
def homeAmong? (surfaces : List Surface) (fullName : String) : Option String :=
  (surfaces.find? fun i => (i.type? fullName).isSome).map (·.name)

def arityAmong? (surfaces : List Surface) (unit fullName method : String) : Option Nat :=
  (surfaces.find? (·.name == unit)).bind fun i =>
    (i.type? fullName).bind (·.arity? method)

namespace Scope

variable (s : Scope)

theorem home?_surfaces (fullName : String) : s.home? fullName =
    if s.declares fullName then some s.unitName
    else homeAmong? (s.interfaces.map Image.surface) fullName := by
  have hhas : ∀ i : Image, (i.surface.type? fullName).isSome = (i.type? fullName).isSome := by
    intro i
    rw [Image.type?_surface, Option.isSome_map]
  rw [homeAmong?, List.find?_map, Option.map_map]
  simp only [Function.comp_def, hhas]
  rfl

theorem arity?_surfaces (unit fullName method : String) : s.arity? unit fullName method =
    if unit = s.unitName then (s.types.find? (·.fullName == fullName)).bind (·.arity? method)
    else arityAmong? (s.interfaces.map Image.surface) unit fullName method := by
  have hmethod : ∀ i : Image, ((i.surface.type? fullName).bind (·.arity? method)) =
      (i.type? fullName).bind fun t => (t.method? method).bind fun m => some m.arity := by
    intro i
    rw [Image.type?_surface, Option.bind_map]
    simp only [Function.comp_def, Image.TypeDecl.arity?_surface, Option.map_eq_bind]
  rw [arityAmong?, List.find?_map, Option.bind_map]
  simp only [Function.comp_def, hmethod]
  rfl

end Scope

/-- Scopes of the same types over interfaces with the same surfaces are alike. -/
theorem alike_of_surfaces {interfaces others : List Image}
    (h : others.map Image.surface = interfaces.map Image.surface) (unitName : String)
    (types : List OwnType) :
    Scope.Alike ⟨unitName, types, others⟩ ⟨unitName, types, interfaces⟩ where
  home?_eq fullName := by
    rw [Scope.home?_surfaces, Scope.home?_surfaces]
    simp only [h]
    rfl
  arity?_eq unit fullName method := by
    rw [Scope.arity?_surfaces, Scope.arity?_surfaces]
    simp only [h]

theorem lowerFiles_surfaces {interfaces others : List Image}
    (h : others.map Image.surface = interfaces.map Image.surface) (unitName : String)
    (references : List String) (files : List ParsedFile) :
    lowerFiles unitName references files others =
      lowerFiles unitName references files interfaces := by
  have hlower : ∀ types, lowerType ⟨unitName, types, others⟩ =
      lowerType ⟨unitName, types, interfaces⟩ :=
    fun types => funext (lowerType_alike (alike_of_surfaces h unitName types))
  simp only [lowerFiles, hlower]

end Compile

theorem compile_surfaces {u : SourceUnit} {interfaces others : List Image}
    (h : others.map Image.surface = interfaces.map Image.surface) :
    compile u others = compile u interfaces := by
  unfold compile
  simp only [Compile.lowerFiles_surfaces h]

/-- A unit compiles to the same image, or with the same faults in the same order, against any
interfaces with the same surfaces. -/
theorem compile_eq_of_surfaces (u : SourceUnit) (interfaces : List Image) :
    (∀ others, others.map Image.surface = interfaces.map Image.surface →
      compile u others = compile u interfaces) ∧
    ∀ x : Image → Image.Insides,
      compile u (interfaces.map fun i => i.withInsides (x i)) = compile u interfaces := by
  refine ⟨fun others h => compile_surfaces h, fun x => compile_surfaces ?_⟩
  rw [List.map_map]
  exact List.map_congr_left fun i _ => i.surface_withInsides (x i)

/-- Books of the same surface, with a field, a reference and a method that does something else. -/
def sealedBooksImage : Image :=
  ⟨"Books", ["Paper"], [⟨"Ledger", ["Sealed"], [⟨"rows", .constant (.boolean true)⟩], [
    ⟨"sum", 2, 3, ["Test"], [.setLocal 2 (.field 0), .return (some (.local 2))], 40⟩]⟩]⟩

theorem compile_eq_of_surfaces_books :
    [sealedBooksImage].map Image.surface = [booksImage].map Image.surface ∧
      ∃ image, compile shopUnit [booksImage] = .ok image ∧
        compile shopUnit [sealedBooksImage] = .ok image := by
  have hsurfaces : [sealedBooksImage].map Image.surface = [booksImage].map Image.surface := rfl
  obtain ⟨image, hcompile⟩ := shopUnit_compiles
  refine ⟨hsurfaces, image, hcompile, ?_⟩
  exact ((compile_eq_of_surfaces shopUnit [booksImage]).1 _ hsurfaces).trans hcompile

end TestBench
