import TestBench.Text.Utf8

/-!
Trees of names. Every entry is reached by the names that lead to it from the
root, and what is done at one location leaves the others as they are.
-/
namespace TestBench

/-- The names that lead to an entry from the root. -/
abbrev Location := List String

/-- Who may do what, as a number, and the second at which there was the last change. -/
structure Attributes where
  mode : Nat
  changed : Nat
  deriving DecidableEq, Repr

/-- What is neither kept nor made by anybody. -/
inductive Device where
  /-- Always empty, whatever is written to it. -/
  | empty
  /-- Zero bytes without end. -/
  | zeros
  /-- Nothing can be written to it. -/
  | full
  deriving DecidableEq, Repr

inductive FileEntry where
  /-- A file is known by a number, and several names may lead to it. -/
  | file (number : Nat)
  | directory (attributes : Attributes)
  | device (kind : Device)
  /-- A program that the system comes with, by its name. -/
  | program (name : String)
  /-- A path that is followed in place of the name. -/
  | link (target : String)
  deriving DecidableEq, Repr

namespace FileEntry

def isDirectory : FileEntry → Bool
  | .directory _ => true
  | _ => false

def target? : FileEntry → Option String
  | .link target => some target
  | _ => none

end FileEntry

/-- An entry with the entries inside it and their names. Only directories have any. -/
inductive FileTree where
  | node (entry : FileEntry) (inside : List (String × FileTree))

namespace FileTree

def entry : FileTree → FileEntry
  | node e _ => e

def inside : FileTree → List (String × FileTree)
  | node _ ts => ts

/-- The mode of directories for which nothing else is said. -/
def openMode : Nat := 0o755

def empty : FileTree := node (.directory ⟨openMode, 0⟩) []

/-- The tree of a name inside a tree. -/
def child? (name : String) (t : FileTree) : Option FileTree :=
  (t.inside.find? (·.1 == name)).map (·.2)

def find? : Location → FileTree → Option FileTree
  | [], t => some t
  | name :: rest, t => (t.child? name).bind (find? rest)

/-- Changes the tree of a name, or adds one if the name is new. -/
def change (name : String) (f : FileTree → FileTree) :
    List (String × FileTree) → List (String × FileTree)
  | [] => [(name, f empty)]
  | t :: rest => if t.1 = name then (name, f t.2) :: rest else t :: change name f rest

/-- Puts an entry at a location. What was inside the one that was there stays. -/
def put (e : FileEntry) : Location → FileTree → FileTree
  | [], t => node e t.inside
  | name :: rest, t => node t.entry (change name (put e rest) t.inside)

/-- Puts a whole tree at a location, in place of what was there. -/
def graft (new : FileTree) : Location → FileTree → FileTree
  | [], _ => new
  | name :: rest, t => node t.entry (change name (graft new rest) t.inside)

/-- Removes the entry at a location with everything inside it. The root stays. -/
def remove : Location → FileTree → FileTree
  | [], t => node t.entry []
  | [name], t => node t.entry (t.inside.filter (·.1 != name))
  | name :: next :: rest, t =>
    node t.entry (t.inside.map fun (n, below) =>
      (n, if n = name then remove (next :: rest) below else below))

mutual

/-- The entries below a location with their own locations, outer ones first. -/
def entriesFrom (place : Location) : FileTree → List (Location × FileEntry)
  | node e ts => (place, e) :: entriesOf place ts

def entriesOf (place : Location) : List (String × FileTree) → List (Location × FileEntry)
  | [] => []
  | (name, t) :: rest => entriesFrom (place ++ [name]) t ++ entriesOf place rest

end

end FileTree

end TestBench
