import TestBench.Files.Basic

/-!
Changes of files other than writing to them: their modes and times, and the
names that lead to them.
-/
namespace TestBench.Files

def modeOf (files : Files) : FileEntry → Nat
  | .file n => ((files.content? n).map (·.attributes.mode)).getD 0
  | .directory a => a.mode
  | .device _ => 0o666
  | .program _ => 0o755
  | .link _ => 0o777

def changedAt (files : Files) : FileEntry → Nat
  | .file n => ((files.content? n).map (·.attributes.changed)).getD 0
  | .directory a => a.changed
  | _ => files.now

def describe (files : Files) (place : Location) (f : Attributes → Attributes) : Files :=
  match files.entry? place with
  | some (.file n) => match files.content? n with
    | some c => files.keep n { c with attributes := f c.attributes }
    | none => files
  | some (.directory a) => files.put place (.directory (f a))
  | _ => files

def setMode (files : Files) (place : Location) (mode : Nat) : Files :=
  files.describe place fun a => { a with mode := mode }

def setTime (files : Files) (place : Location) (time : Nat) : Files :=
  files.describe place fun a => { a with changed := time }

/-- Gives what is at a place another place, where nothing is then but this. -/
def move (files : Files) (source target : Location) : Files :=
  match files.root.find? source with
  | some t => { files with root := FileTree.graft t target (files.root.remove source) }
  | none => files

/-- Whether the directory at a place has nothing in it. -/
def isEmptyAt (files : Files) (place : Location) : Bool := (files.namesAt place).isEmpty

/-- The directory that a place is in has to be there. -/
def parentError? (files : Files) (place : Location) : Option FileError :=
  match files.entry? place.dropLast with
  | some (.directory _) => none
  | some _ => some .notDirectory
  | none => some .notFound

end TestBench.Files
