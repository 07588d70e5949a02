import TestBench.Compile.Lowering
import TestBench.Files.Basic
import TestBench.Image.Name
import TestBench.Store.Basic

/-!
From a unit to its closure. The references of a unit come before the unit, each
name is handled once, and the first to have it wins. Binary images are taken
from the store if they are there; units are always compiled anew and replace
what the store holds. A unit that fails leaves no image of its own behind. In
which order the images are looked through in the end is left open.
-/
namespace TestBench

inductive MaterializeFault where
  | compile (unit : String) (diagnostics : List FileDiagnostic)
  | invalidName (name : String)
  | cycle (chain : List String)
  | unreadable (name path : String) (error : FileError)
  | badImage (name path : String) (defect : Image.Defect)
  | misnamed (path expected found : String)
  | incomplete (image missing : String)
  | unencodable (unit : String)
  deriving DecidableEq, Repr

namespace MaterializeFault

def message : MaterializeFault → String
  | .compile unit diagnostics =>
    "unit '" ++ unit ++ "' failed to compile with " ++ toString diagnostics.length ++ " error(s)"
  | .invalidName name => "'" ++ name ++ "' is not a valid assembly name"
  | .cycle chain => "reference cycle: " ++ " -> ".intercalate chain
  | .unreadable name path error =>
    "cannot read referenced image '" ++ name ++ "' at " ++ path ++ ": " ++ error.message
  | .badImage name path defect =>
    "referenced image '" ++ name ++ "' at " ++ path ++ ": " ++ defect.message
  | .misnamed path expected found =>
    "image at " ++ path ++ " is named '" ++ found ++ "' but is referenced as '" ++ expected ++ "'"
  | .incomplete image missing =>
    "image '" ++ image ++ "' references '" ++ missing ++ "', which is not part of the closure"
  | .unencodable unit =>
    "failed to encode image for '" ++ unit ++ "': a size does not fit in 64 bits"

end MaterializeFault

namespace Materialize

/-- What a pass has made so far: the store, the images of the closure and what they hold. -/
structure Pass where
  store : Store
  images : NameMap StoredImage
  decoded : NameMap Image

namespace Pass

def start (store : Store) : Pass := ⟨store, NameMap.empty, NameMap.empty⟩

def addImage (p : Pass) (name : String) (stored : StoredImage) (image : Image) : Pass :=
  { p with images := p.images.insert name stored, decoded := p.decoded.insert name image }

/-- Takes an image out of the store if it is one of those that the pass has seen. -/
def evict (p : Pass) (name : String) (seen : List StoredImage) : Pass :=
  { p with store := (p.store.removeIf name seen.contains).2 }

end Pass

abbrev Step := Except MaterializeFault Unit × Pass

def readBinary (name path : String) (bytes : Bytes) : Except MaterializeFault Image :=
  match Image.decode bytes with
  | .error defect => .error (.badImage name path defect)
  | .ok image => if image.name = name then .ok image else .error (.misnamed path name image.name)

/-- The image at a path, which must be a good image of its name. -/
def load (files : Files) (name path : String) : Except MaterializeFault StoredImage :=
  match files.read path with
  | .error e => .error (.unreadable name path e)
  | .ok bytes => do
    let _ ← readBinary name path bytes
    return StoredImage.ofBytes name bytes

def addBinary (files : Files) (name path : String) (p : Pass) : Step :=
  match p.store.getOrAdd name (fun _ => load files name path) with
  | (.error e, store) => (.error e, { p with store })
  | (.ok stored, store) =>
    let p := { p with store }
    match readBinary name path stored.bytes with
    | .error e => (.error e, p)
    | .ok image => (.ok (), p.addImage name stored image)

/-- The images that a unit may refer to, the first of each name. -/
def interfaces (decoded : NameMap Image) (references : List Reference) : List Image :=
  (references.filterMap fun r => decoded.get? r.name).foldl
    (fun found image => if found.any (·.name == image.name) then found else found ++ [image]) []

/-- Compiles a unit whose references are done. -/
def emit (u : SourceUnit) (p : Pass) : Step :=
  match compile u (interfaces p.decoded u.references) with
  | .error diagnostics => (.error (.compile u.name diagnostics), p)
  | .ok image =>
    match image.encode? with
    | none => (.error (.unencodable u.name), p)
    | some bytes =>
      let stored := StoredImage.ofBytes u.name bytes
      (.ok (), { p with store := p.store.add stored }.addImage u.name stored image)

mutual

/-- Handles a unit inside those whose names are on the stack, outermost first. -/
def visit (files : Files) : SourceUnit → List String → Pass → Step
  | .mk name sources references, stack, p =>
    if !Image.isValidName name then (.error (.invalidName name), p)
    else if stack.contains name then (.error (.cycle (stack ++ [name])), p)
    else
      let stale := p.store.get? name
      let (result, q) := match visitAll files references (stack ++ [name]) p with
        | (.ok (), q) => emit (.mk name sources references) q
        | failed => failed
      match result with
      | .ok () => (.ok (), q)
      | .error e => (.error e, q.evict name (stale.toList ++ (q.images.get? name).toList))

def visitAll (files : Files) : List Reference → List String → Pass → Step
  | [], _, p => (.ok (), p)
  | r :: rest, stack, p =>
    match visitReference files r stack p with
    | (.ok (), q) => visitAll files rest stack q
    | failed => failed

def visitReference (files : Files) : Reference → List String → Pass → Step
  | .unit u, stack, p =>
    if !Image.isValidName u.name then (.error (.invalidName u.name), p)
    else if stack.contains u.name then (.error (.cycle (stack ++ [u.name])), p)
    else if p.images.contains u.name then (.ok (), p)
    else visit files u stack p
  | .binary path, _, p =>
    let name := binaryName path
    if !Image.isValidName name then (.error (.invalidName name), p)
    else if p.images.contains name then (.ok (), p)
    else addBinary files name path p

end

/-- Some order in which images are gone through. -/
structure Order where
  arrange : List Image → List Image
  perm : ∀ images, (arrange images).Perm images

/-- The order of the names. -/
def Order.sorted : Order := ⟨fun images => images, fun _ => .refl _⟩

/-- The first image of the pass with a reference that the pass has no image for. -/
def dangling? (order : Order) (p : Pass) : Option (String × String) :=
  (order.arrange p.decoded.values).findSome? fun image =>
    (image.references.find? fun r => !p.images.contains r).map (image.name, ·)

end Materialize

/-- The closure of a unit and the store after the pass. -/
def materialize (order : Materialize.Order) (files : Files) (store : Store) (u : SourceUnit) :
    Except MaterializeFault Closure × Store :=
  match Materialize.visit files u [] (.start store) with
  | (.error e, p) => (.error e, p.store)
  | (.ok (), p) =>
    match Materialize.dangling? order p with
    | some (image, missing) =>
      (.error (.incomplete image missing), (p.evict u.name (p.images.get? u.name).toList).store)
    | none => (.ok ⟨u.name, p.images⟩, p.store)

end TestBench
