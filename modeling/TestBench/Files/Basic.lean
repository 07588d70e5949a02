import TestBench.Files.Tree
import TestBench.Path

/-!
Files as a value, reached by paths. A path is followed from the root or from
the working directory, and each step needs a directory to start from.
-/
namespace TestBench

inductive FileError where
  | notFound
  | permissionDenied
  | alreadyThere
  | notDirectory
  | isDirectory
  | nameTooLong
  | notEmpty
  | tooManyLinks
  | notPermitted
  | invalidArgument
  | noSpace
  | badDescriptor
  | notText
  | nulInPath
  | nulInCommand
  | notAProgram
  | invalidName (name : String)
  deriving DecidableEq, Repr

namespace FileError

def reason : FileError → String
  | .notFound => "No such file or directory"
  | .permissionDenied => "Permission denied"
  | .alreadyThere => "File exists"
  | .notDirectory => "Not a directory"
  | .isDirectory => "Is a directory"
  | .nameTooLong => "File name too long"
  | .notEmpty => "Directory not empty"
  | .tooManyLinks => "Too many levels of symbolic links"
  | .notPermitted => "Operation not permitted"
  | .invalidArgument => "Invalid argument"
  | .noSpace => "No space left on device"
  | .badDescriptor => "Bad file descriptor"
  | .notAProgram => "Exec format error"
  | .notText => "stream did not contain valid UTF-8"
  | .nulInPath => "file name contained an unexpected NUL byte"
  | .nulInCommand => "nul byte found in provided data"
  | .invalidName name => "'" ++ name ++ "' is not a valid image name"

/-- The number of an error that the system reports. -/
def number? : FileError → Option Nat
  | .notPermitted => some 1
  | .notFound => some 2
  | .notAProgram => some 8
  | .badDescriptor => some 9
  | .permissionDenied => some 13
  | .alreadyThere => some 17
  | .notDirectory => some 20
  | .isDirectory => some 21
  | .invalidArgument => some 22
  | .noSpace => some 28
  | .nameTooLong => some 36
  | .notEmpty => some 39
  | .tooManyLinks => some 40
  | _ => none

def message (e : FileError) : String :=
  match e.number? with
  | some number => e.reason ++ " (os error " ++ toString number ++ ")"
  | none => e.reason

end FileError

/-- What is kept of a file, whichever names lead to it. -/
structure FileContent where
  bytes : Bytes
  attributes : Attributes
  deriving DecidableEq, Repr

/-- A tree of names with the files that these lead to, and how someone sees them: where paths begin,
what new entries are not allowed, and the time. -/
structure Files where
  root : FileTree
  contents : List (Nat × FileContent)
  nextNumber : Nat
  workingDirectory : Location
  mask : Nat
  now : Nat

namespace Files

/-- Where scratch areas go when nothing else is said. -/
def temporary : Location := ["tmp"]

/-- Where the programs are that the system comes with. -/
def programDirectory : Location := ["usr", "bin"]

def entry? (files : Files) (place : Location) : Option FileEntry :=
  (files.root.find? place).map (·.entry)

def put (files : Files) (place : Location) (e : FileEntry) : Files :=
  { files with root := files.root.put e place }

def remove (files : Files) (place : Location) : Files :=
  { files with root := files.root.remove place }

/-- The names in the directory at a location. -/
def namesAt (files : Files) (place : Location) : List String :=
  match files.root.find? place with
  | some t => t.inside.map (·.1)
  | none => []

def content? (files : Files) (number : Nat) : Option FileContent :=
  List.lookup number files.contents

def bytesOf (files : Files) (number : Nat) : Bytes :=
  ((files.content? number).map (·.bytes)).getD []

def keep (files : Files) (number : Nat) (c : FileContent) : Files :=
  { files with contents := (number, c) :: files.contents.filter (·.1 != number) }

def rewrite (files : Files) (number : Nat) (bytes : Bytes) : Files :=
  let mode := ((files.content? number).map (·.attributes.mode)).getD 0
  files.keep number ⟨bytes, mode, files.now⟩

/-- The bits of a mode that let files be executed. -/
def executeBits : Nat := 0o111

def isExecutableMode (mode : Nat) : Bool := mode &&& executeBits != 0

/-- What a new entry may be of a mode. -/
def allowed (files : Files) (mode : Nat) : Nat := mode &&& (0o7777 ^^^ files.mask)

def create (files : Files) (place : Location) (mode : Nat) (bytes : Bytes) : Files :=
  let n := files.nextNumber
  { (files.keep n ⟨bytes, mode, files.now⟩).put place (.file n) with nextNumber := n + 1 }

/-- Puts a file with all that is said about it at a location, in place of one that is there. -/
def putFile (files : Files) (place : Location) (bytes : Bytes) (executable : Bool) : Files :=
  let mode := if executable then 0o755 else 0o644
  match files.entry? place with
  | some (.file n) => files.keep n ⟨bytes, mode, files.now⟩
  | _ => files.create place mode bytes

def putDirectory (files : Files) (place : Location) : Files :=
  files.put place (.directory ⟨files.allowed 0o777, files.now⟩)

/-- An empty working directory, and what every system has. -/
def fresh : Files :=
  let directory : FileEntry := .directory ⟨FileTree.openMode, 0⟩
  let places : List (Location × FileEntry) :=
    [(temporary, .directory ⟨0o1777, 0⟩), (["dev"], directory),
      (["dev", "null"], .device .empty), (["dev", "zero"], .device .zeros),
      (["dev", "full"], .device .full),
      (["usr"], directory), (programDirectory, directory), (["bin"], .link "usr/bin"),
      (["usr", "sbin"], directory), (["sbin"], .link "usr/sbin"),
      (["usr", "lib"], directory), (["lib"], .link "usr/lib"),
      (["usr", "local"], directory), (["usr", "local", "bin"], directory),
      (["etc"], directory), (["home"], directory), (["opt"], directory), (["proc"], directory),
      (["root"], directory), (["sys"], directory), (["var"], directory),
      (["work"], directory)]
  let files : Files := places.foldl (fun (files : Files) (place, e) => files.put place e)
    ⟨.empty, [], 1, ["work"], 0o022, 0x68000000⟩
  files.create ["etc", "passwd"] 0o644 (Utf8.ofString "root:x:0:0:root:/root:/bin/bash\n")

/-- Adds programs to those that the system comes with. -/
def install (files : Files) (names : List String) : Files :=
  names.foldl (fun files name => files.put (programDirectory ++ [name]) (.program name)) files

def nameLimit : Nat := 255

def pathLimit : Nat := 4096

def linkLimit : Nat := 40

def sizeInBytes (cs : List Char) : Nat := (Utf8.encode cs).length

/-- The names that a path has led to so far, the last one first, each with what is there. -/
abbrev Trail := List (String × Option FileTree)

namespace Trail

variable (root : FileTree)

def tree? : Trail → Option FileTree
  | [] => some root
  | (_, t) :: _ => t

def enter (trail : Trail) (name : String) : Trail :=
  (name, (tree? root trail).bind (·.child? name)) :: trail

def along (place : Location) : Trail := place.foldl (enter root) []

def place (trail : Trail) : Location := (trail.map (·.1)).reverse

/-- Where the link at the end of a trail leads to. -/
def target? (trail : Trail) : Option String :=
  (tree? root trail).bind fun t => t.entry.target?

/-- Follows the pieces of a path up to a link, where others go on. The last piece need not be there,
and as a link it is followed only if asked. -/
def follow (followsLast : Bool) (goOn : Trail → List (List Char) → Except FileError Location) :
    Trail → List (List Char) → Except FileError Location
  | trail, [] => .ok trail.place
  | trail, piece :: rest =>
    match (tree? root trail).map FileTree.entry with
    | none => .error .notFound
    | some (.directory _) =>
      if piece = [] ∨ piece = ['.'] then follow followsLast goOn trail rest
      else if piece = ['.', '.'] then follow followsLast goOn trail.tail rest
      else if nameLimit < sizeInBytes piece then .error .nameTooLong
      else
        let next := enter root trail (String.ofList piece)
        match target? root next with
        | none => follow followsLast goOn next rest
        | some target =>
          if rest.isEmpty && !followsLast then .ok next.place
          else goOn (if Path.isAbsolute target.toList then [] else trail)
            (Path.splitAt '/' target.toList ++ rest)
    | some _ => .error .notDirectory

/-- Follows the pieces of a path and as many links as one path may have. -/
def walk (followsLast : Bool) : Nat → Trail → List (List Char) → Except FileError Location
  | 0 => follow root followsLast fun _ _ => .error .tooManyLinks
  | links + 1 => follow root followsLast (walk followsLast links)

end Trail

def locateWith (files : Files) (followsLast : Bool) (path : String) :
    Except FileError Location :=
  let cs := path.toList
  if cs.contains '\x00' then .error .nulInPath
  else if cs = [] then .error .notFound
  else if pathLimit ≤ sizeInBytes cs then .error .nameTooLong
  else
    let start := if Path.isAbsolute cs then [] else files.workingDirectory
    Trail.walk files.root followsLast linkLimit (Trail.along files.root start)
      (Path.splitAt '/' cs)

def locate (files : Files) (path : String) : Except FileError Location :=
  files.locateWith true path

/-- The place that a path means, which may hold a link. -/
def locateEntry (files : Files) (path : String) : Except FileError Location :=
  files.locateWith false path

def find (files : Files) (path : String) : Except FileError FileEntry := do
  match files.entry? (← files.locate path) with
  | some e => .ok e
  | none => .error .notFound

/-- What is at a path, even if it is a link. -/
def findEntry (files : Files) (path : String) : Except FileError FileEntry := do
  match files.entry? (← files.locateEntry path) with
  | some e => .ok e
  | none => .error .notFound

def programBytes : Bytes := [0x7F, 0x45, 0x4C, 0x46, 0x02, 0x01, 0x01, 0x00, 0xFF]

def read (files : Files) (path : String) : Except FileError Bytes := do
  match ← files.find path with
  | .file n => .ok (files.bytesOf n)
  | .device _ => .ok []
  | .program _ => .ok programBytes
  | .directory _ => .error .isDirectory
  | .link _ => .error .notFound

def readText (files : Files) (path : String) : Except FileError String := do
  match Utf8.toString? (← files.read path) with
  | some text => .ok text
  | none => .error .notText

def isFile (files : Files) (path : String) : Bool :=
  match files.find path with
  | .ok (.file _) | .ok (.program _) => true
  | _ => false

def isDirectory (files : Files) (path : String) : Bool :=
  match files.find path with
  | .ok e => e.isDirectory
  | .error _ => false

def list (files : Files) (path : String) : Except FileError (List String) := do
  let place ← files.locate path
  match files.entry? place with
  | some (.directory _) => .ok (files.namesAt place)
  | some _ => .error .notDirectory
  | none => .error .notFound

/-- Writes a file, in place of one that is there. -/
def write (files : Files) (path : String) (bytes : Bytes) : Except FileError Files := do
  let place ← files.locate path
  match files.entry? place with
  | none => .ok (files.create place (files.allowed 0o666) bytes)
  | some (.file n) => .ok (files.rewrite n bytes)
  | some (.device .full) => if bytes.isEmpty then .ok files else .error .noSpace
  | some (.device _) => .ok files
  | some (.directory _) => .error .isDirectory
  | some (.program _) | some (.link _) => .error .permissionDenied

/-- The place of a directory that is to be made. Slashes at the end of its path mean nothing. -/
def locateNew (files : Files) (path : String) : Except FileError Location :=
  let bare := Path.dropTrailing (· == '/') path.toList
  if pathLimit ≤ sizeInBytes path.toList then .error .nameTooLong
  else files.locateEntry (if bare.isEmpty then path else String.ofList bare)

def makeDirectory (files : Files) (path : String) : Except FileError Files := do
  let place ← files.locateNew path
  match files.entry? place with
  | some _ => .error .alreadyThere
  | none => .ok (files.putDirectory place)

/-- Makes a directory and those above it that are missing, the outermost first. What was made
before an error stays. -/
def makeDirectories (files : Files) (path : String) : Nat → Files × Except FileError Unit
  | 0 => (files, .ok ())
  | limit + 1 =>
    if path.isEmpty then (files, .ok ())
    else match files.makeDirectory path with
      | .ok made => (made, .ok ())
      | .error .notFound =>
        match Path.parent? path.toList with
        | none => (files, .error .notFound)
        | some above =>
          match files.makeDirectories (String.ofList above) limit with
          | (made, .error e) => (made, .error e)
          | (made, .ok ()) =>
            match made.makeDirectory path with
            | .ok last => (last, .ok ())
            | .error e => (made, if made.isDirectory path then .ok () else .error e)
      | .error e => (files, if files.isDirectory path then .ok () else .error e)

def ensureDirectory (files : Files) (path : String) : Files × Except FileError Unit :=
  files.makeDirectories path (path.length + 1)

end Files

end TestBench
