import TestBench.Image.Codec
import TestBench.NameMap

/-!
Images as bytes under a name. A store keeps them between passes; a closure is
the entry image of a unit with all the images that it needs.
-/
namespace TestBench

structure StoredImage where
  name : String
  bytes : Bytes
  digest : String
  deriving DecidableEq, Repr

namespace StoredImage

def ofBytes (name : String) (bytes : Bytes) : StoredImage := ⟨name, bytes, Digest.ofBytes bytes⟩

end StoredImage

structure Closure where
  entry : String
  images : NameMap StoredImage

namespace Closure

def get? (c : Closure) (name : String) : Option StoredImage := c.images.get? name

def names (c : Closure) : List String := c.images.keys

end Closure

abbrev Store := NameMap StoredImage

namespace Store

def empty : Store := NameMap.empty

/-- Keeps an image under its own name. -/
def add (s : Store) (image : StoredImage) : Store := NameMap.insert s image.name image

/-- What is kept under a name, or else what `make` gives, which is then kept. -/
def getOrAdd {ε : Type} (s : Store) (name : String) (make : Unit → Except ε StoredImage) :
    Except ε StoredImage × Store :=
  match NameMap.get? s name with
  | some image => (.ok image, s)
  | none =>
    match make () with
    | .ok image => (.ok image, NameMap.insert s name image)
    | .error e => (.error e, s)

/-- Takes out what is kept under a name. -/
def remove (s : Store) (name : String) : Option StoredImage × Store :=
  (NameMap.get? s name, NameMap.erase s name)

/-- Takes out what is kept under a name if it satisfies `p`. -/
def removeIf (s : Store) (name : String) (p : StoredImage → Bool) : Option StoredImage × Store :=
  match NameMap.get? s name with
  | some image => if p image then s.remove name else (none, s)
  | none => (none, s)

end Store

end TestBench
