import TestBench.Sandbox.Scratch

/-!
Temporary directories with numbers for names: of all numbers, the first that is
free is taken.
-/
namespace TestBench.Programs

def candidate (start : String) (n : Nat) : String := start ++ toString n

def freshName (start : String) (taken : List String) : String :=
  candidate start (((List.range (taken.length + 1)).find? fun n =>
    !taken.contains (candidate start n)).getD 0)

def makeNumbered (start : String) (files : Files) (directory : String) :
    Files × Except FileError Scratch :=
  let taken := match files.list directory with
    | .ok names => names
    | .error _ => []
  let path := Path.join directory (freshName start taken)
  match files.makeDirectory path, files.locateNew path with
  | .ok made, .ok place => (made, .ok ⟨path, place⟩)
  | .error e, _ => (files, .error e)
  | _, .error e => (files, .error e)

/-- What is not a directory any more stays. -/
def removeArea (area : Scratch) (files : Files) : Files :=
  match files.entry? area.place with
  | some (.directory _) | some (.link _) => files.remove area.place
  | _ => files

def directories : TemporaryDirectories := ⟨makeNumbered, removeArea⟩

end TestBench.Programs
