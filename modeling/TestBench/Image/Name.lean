/-!
Names of images. A valid name stays a single file name when the extension of
images is put behind it.
-/
namespace TestBench.Image

def extension : String := "tdi"

def fileName (name : String) : String := name ++ "." ++ extension

def isValidName (name : String) : Bool :=
  !name.isEmpty && name != "." && name != ".." &&
    name.toList.all fun c => c != '/' && c != '\\' && c != '\x00'

end TestBench.Image
