import TestBench.Image.Name
import TestBench.Files.Basic
import TestBench.Store.Basic

/-!
Scratch areas: directories of their own for the images of one run. Who makes
and removes such directories is left open. An area goes away with all that is
in it.
-/
namespace TestBench

structure Scratch where
  path : String
  place : Location

/-- How a new directory is made in one that is there, under a name with a given beginning, and how
it is removed again. -/
structure TemporaryDirectories where
  make : String → Files → String → Files × Except FileError Scratch
  remove : Scratch → Files → Files

namespace Scratch

def nameStart : String := "tddlive-"

/-- Makes an area under a root, which is made too if need be, or among the temporary files. -/
def create (directories : TemporaryDirectories) (files : Files) (root : Option String) :
    Files × Except FileError Scratch :=
  match root with
  | none => directories.make nameStart files ("/" ++ "/".intercalate Files.temporary)
  | some directory =>
    match files.ensureDirectory directory with
    | (made, .error e) => (made, .error e)
    | (made, .ok ()) => directories.make nameStart made directory

def imagePath (s : Scratch) (name : String) : String := Path.join s.path (Image.fileName name)

/-- Writes images in the order of their names up to the first that cannot be written. -/
def persist (s : Scratch) : List (String × StoredImage) → Files → Files × Except FileError Unit
  | [], files => (files, .ok ())
  | (name, image) :: rest, files =>
    if Image.isValidName name then
      match files.write (s.imagePath name) image.bytes with
      | .error e => (files, .error e)
      | .ok written => persist s rest written
    else (files, .error (.invalidName name))

end Scratch

end TestBench
