import TestBench.Machine.Loading
import TestBench.Sandbox.Scratch

/-!
Two ways to resolve names to the images in a directory. One knows a closure and
checks each file against the digest that the closure has for it; the other
takes the image files that it finds there.
-/
namespace TestBench.Resolver

def readAt (files : Files) (name path : String) : Except ResolutionFault Bytes :=
  match files.read path with
  | .ok bytes => .ok bytes
  | .error e => .error (.unreadable name path e)

def ofClosure (files : Files) (directory : String) (closure : Closure) : Resolver where
  index := closure.names
  fetch name := do
    match closure.get? name with
    | none => .error (.notInClosure name)
    | some image =>
      let path := Path.join directory (Image.fileName name)
      let bytes ← readAt files name path
      if Digest.ofBytes bytes = image.digest then decoded name bytes
      else .error (.digestMismatch name path)

/-- The name of the image in a file of this name, if it is the name of an image file. -/
def imageName? (file : String) : Option String :=
  let (stem, extension) := Path.splitExtension file.toList
  if extension = some Image.extension.toList then some (String.ofList stem) else none

def ofNames (files : Files) (directory : String) (found : List String) : Resolver where
  index := (NameMap.ofList ((found.filterMap imageName?).map (·, ()))).keys
  fetch name := do
    decoded name (← readAt files name (Path.join directory (Image.fileName name)))

/-- The resolver of the image files in a directory, whose names are in order. -/
def ofDirectory (files : Files) (directory : String) : Except FileError Resolver :=
  match files.list directory with
  | .ok found => .ok (ofNames files directory found)
  | .error e => .error e

end TestBench.Resolver
