/-!
Paths as text. Slashes separate the components of a path; empty components and
inner dots mean nothing. The last component, if it is a name, is the file name,
and what stands before its last dot is the stem.
-/
namespace TestBench.Path

inductive Component where
  | root
  | current
  | parent
  | name (text : List Char)
  deriving DecidableEq, Repr

/-- The texts between the separators. -/
def splitAt (separator : Char) : List Char → List (List Char)
  | [] => [[]]
  | c :: rest =>
    if c = separator then [] :: splitAt separator rest
    else match splitAt separator rest with
      | [] => [[c]]
      | piece :: more => (c :: piece) :: more

def isAbsolute (path : List Char) : Bool := path.head? = some '/'

def component? (piece : List Char) : Option Component :=
  if piece = [] ∨ piece = ['.'] then none
  else if piece = ['.', '.'] then some .parent
  else some (.name piece)

/-- The components of a path. A dot counts only where a relative path begins with it. -/
def components (path : List Char) : List Component :=
  let pieces := splitAt '/' path
  let start :=
    if isAbsolute path then [Component.root]
    else if pieces.head? = some ['.'] then [Component.current] else []
  start ++ pieces.filterMap component?

def sameFile (a b : String) : Bool := components a.toList == components b.toList

def fileName? (path : List Char) : Option (List Char) :=
  match (components path).getLast? with
  | some (.name text) => some text
  | _ => none

/-- What stands before and after the last dot, unless the dot comes first. -/
def splitExtension (name : List Char) : List Char × Option (List Char) :=
  let after := (name.reverse.takeWhile (· != '.')).reverse
  let before := name.take (name.length - after.length - 1)
  if after.length = name.length ∨ before = [] then (name, none) else (before, some after)

def stem? (path : List Char) : Option (List Char) :=
  (fileName? path).map fun name => (splitExtension name).1

def join (directory file : String) : String :=
  if isAbsolute file.toList || directory.isEmpty then file
  else if directory.toList.getLast? = some '/' then directory ++ file
  else directory ++ "/" ++ file

/-- The characters up to the last one that satisfies `p`. -/
def dropTrailing (p : Char → Bool) (cs : List Char) : List Char :=
  (cs.reverse.dropWhile p).reverse

/-- Leaves out separators and lone dots at the end, but not a leading one of either. -/
def trimEnd (path : List Char) : Nat → List Char
  | 0 => path
  | limit + 1 =>
    let bare := dropTrailing (· == '/') path
    if bare = [] then path.take 1
    else
      let piece := (bare.reverse.takeWhile (· != '/')).reverse
      if piece = ['.'] ∧ 1 < bare.length then trimEnd (bare.take (bare.length - 1)) limit
      else bare

/-- The path of the directory that holds a path's last component. -/
def parent? (path : List Char) : Option (List Char) :=
  match (components path).getLast? with
  | none | some .root => none
  | some _ =>
    let whole := trimEnd path path.length
    let piece := whole.reverse.takeWhile (· != '/')
    some (trimEnd (whole.take (whole.length - piece.length)) path.length)

end TestBench.Path
