import TestBench.Tools.Directories

/-!
Listings of what is in directories, one name on each line.
-/
namespace TestBench.Tools.Listing

open Shell

/-- An entry under the name by which it is shown. -/
structure Item where
  name : List Char
  path : List Char
  entry : FileEntry
  changed : Nat

def item (files : Files) (follows : Bool) (name path : List Char) :
    Except FileError Item := do
  let e ← if follows then files.find (pathOf path) else files.findEntry (pathOf path)
  return ⟨name, path, e, files.changedAt e⟩

def isBefore (a b : List Char) : Bool := String.ofList a < String.ofList b

/-- Items in the order in which they are shown. -/
def ordered (c : Call) (items : List Item) : List Item :=
  let byName := items.mergeSort fun a b => !isBefore b.name a.name
  let sorted := if c.has "t" then byName.mergeSort fun a b => b.changed ≤ a.changed else byName
  if c.has "r" then sorted.reverse else sorted

/-- What follows a name to tell what it is of. -/
def indicator (c : Call) (files : Files) (e : FileEntry) : List Char :=
  match e with
  | .directory _ => if c.has "F" || c.has "p" then ['/'] else []
  | .link _ => if c.has "F" then ['@'] else []
  | .device _ => []
  | e => if c.has "F" && Files.isExecutableMode (files.modeOf e) then ['*'] else []

def showItems (c : Call) (files : Files) (items : List Item) : Act Unit :=
  printLines ((ordered c items).map fun i => i.name ++ indicator c files i.entry)

/-- Whether a name in a directory is shown. -/
def isShown (c : Call) (name : List Char) : Bool :=
  name.head? != some '.' || c.has "a" || c.has "A"

def itemsIn (c : Call) (files : Files) (path : List Char) (place : Location) : List Item :=
  let own := if c.has "a" then [['.'], ['.', '.']] else []
  let names := own ++ ((files.namesAt place).map octets).filter (isShown c)
  names.filterMap fun n => (item files (c.has "L") n (inDirectory path n)).toOption

/-- Shows what is in a directory, and what is in those that are in it. -/
def showDirectory (c : Call) (withName : Bool) : Nat → Bool → List Char → Act Bool
  | 0, isFirst, _ => return isFirst
  | limit + 1, isFirst, path => do
    let files := (← get).view
    match files.locate (pathOf path) with
    | .error e =>
      c.failed "cannot open directory" path e
      return isFirst
    | .ok place =>
      let items := itemsIn c files path place
      if withName then print ((if isFirst then [] else ['\n']) ++ path ++ [':', '\n'])
      showItems c files items
      if c.has "R" then
        let inner := (ordered c items).filter fun i =>
          i.entry.isDirectory && i.name != ['.'] && i.name != ['.', '.']
        inner.forM fun i => do
          let _ ← showDirectory c withName limit false i.path
      return false

def troubled : Nat := 2

def run (c : Call) : Act Nat := do
  let files := (← get).view
  let paths := if c.operands.isEmpty then [['.']] else c.operands
  let follows := c.has "L" || !(c.has "d" || c.has "F")
  let found ← paths.mapM fun path => do
    match item files follows path path with
    | .ok i => return some i
    | .error e =>
      match e, item files false path path with
      | .notFound, .ok i => return some i
      | _, _ =>
        c.failed "cannot access" path e
        return none
  let items := found.filterMap id
  let (directories, others) := items.partition fun i => i.entry.isDirectory && !c.has "d"
  showItems c files others
  let withName := 1 < paths.length || c.has "R"
  let _ ← (ordered c directories).foldlM (fun isFirst i =>
    showDirectory c withName Files.pathLimit isFirst i.path) others.isEmpty
  return if found.all (·.isSome) then 0 else troubled

def tool : Tool :=
  { Tool.of "aAdFLprRt1" [flag "all" "a", flag "almost-all" "A", flag "directory" "d",
      flag "classify" "F", flag "dereference" "L", flag "reverse" "r", flag "recursive" "R"]
      run with failure := troubled }

end TestBench.Tools.Listing
