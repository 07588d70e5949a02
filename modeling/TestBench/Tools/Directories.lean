import TestBench.Files.Change
import TestBench.Files.Mode
import TestBench.Tools.Text

/-!
Directories that are made, entries that are removed, and the parts of their names.
-/
namespace TestBench.Tools

open Shell

/-- What is at a path, even if it is a link. -/
def entryAt (path : List Char) : Act (Except FileError FileEntry) := do
  return (← get).view.findEntry (pathOf path)

/-- Does something for each operand. Whether everything went well. -/
def eachOperand (c : Call) (act : List Char → Act Bool) : Act Nat := do
  let found ← c.operands.mapM act
  return ofTruth (found.all id)

def bare (path : List Char) : List Char :=
  let cs := Path.dropTrailing (· == '/') path
  if cs.isEmpty then path.take 1 else cs

def lastName (path : List Char) : List Char := ((Path.splitAt '/' (bare path)).getLast?).getD path

def inDirectory (directory name : List Char) : List Char :=
  if directory.getLast? = some '/' then directory ++ name else directory ++ '/' :: name

namespace Making

/-- The paths of the directories that a path leads through, the outermost first. -/
def ancestors (path : List Char) : List (List Char) :=
  let pieces := Path.splitAt '/' (bare path)
  ((List.range (pieces.length)).map fun n => ['/'].intercalate (pieces.take (n + 1))).filter
    fun p => !p.isEmpty

def announce (c : Call) (path : List Char) : Act Unit := do
  if c.has "v" then
    print (c.name ++ octets ": created directory " ++ Call.marked path ++ ['\n'])

/-- Makes one directory, with a mode if one is asked for. -/
def makeOne (c : Call) (mode : Option Nat) (path : List Char) : Act (Option FileError) := do
  let files := (← get).view
  match files.makeDirectory (pathOf path) with
  | .error e => return some e
  | .ok made =>
    let made := match mode, made.locateNew (pathOf path) with
      | some m, .ok place => made.setMode place m
      | _, _ => made
    modify (·.update made)
    announce c path
    return none

def refused (c : Call) (path : List Char) (e : FileError) : Act Bool := do
  c.complain (octets "cannot create directory " ++ c.cited path ++ octets (": " ++ e.reason))
  return false

def makeWithParents (c : Call) (mode : Option Nat) (path : List Char) :
    List (List Char) → Act Bool
  | [] => if path.isEmpty then refused c path .notFound else return true
  | p :: rest => do
    let files := (← get).view
    if files.isDirectory (pathOf p) then makeWithParents c mode path rest
    else match ← makeOne c (if rest.isEmpty then mode else none) p with
      | none => makeWithParents c mode path rest
      | some e =>
        refused c p (if e = .alreadyThere ∧ !rest.isEmpty then .notDirectory else e)

def run (c : Call) : Act Nat := do
  let start := FileTree.openMode ||| 0o022
  match (c.value? "m").map fun text => Mode.changed? 0 true text start with
  | some none =>
    c.complain (octets "invalid mode " ++ c.cited ((c.value? "m").getD []))
    return 1
  | mode => eachOperand c fun path => do
    if c.has "p" then makeWithParents c mode.join path (ancestors path)
    else match ← makeOne c mode.join path with
      | none => return true
      | some e => refused c path e

def tool : Tool :=
  .of "m:pv" [valued "mode" "m", flag "parents" "p", flag "verbose" "v"] (needs 1 run)

end Making

namespace Removing

def removeEmpty (path : List Char) : Act (Option FileError) := do
  let files := (← get).view
  match lastName path, files.locateEntry (pathOf path) with
  | ['.'], .ok _ => return some .invalidArgument
  | _, .error e => return some e
  | _, .ok place =>
    match files.entry? place with
    | some (.directory _) =>
      if !files.isEmptyAt place then return some .notEmpty
      modify (·.update (files.remove place))
      return none
    | some _ => return some .notDirectory
    | none => return some .notFound

def removeParents (c : Call) : Nat → List Char → Act Bool
  | 0, _ => return true
  | limit + 1, path => do
    let above := bare ((bare path).take ((bare path).length - (lastName path).length))
    if above.isEmpty ∨ !(bare path).contains '/' then return true
    if c.has "v" then
      print (c.name ++ octets ": removing directory, " ++ Call.marked above ++ ['\n'])
    match ← removeEmpty above with
    | none => removeParents c limit above
    | some e =>
      if c.has "ignore" ∧ e = .notEmpty then return true
      c.failed "failed to remove directory" above e
      return false

def rmdir (c : Call) : Act Nat := eachOperand c fun path => do
  if c.has "v" then
    print (c.name ++ octets ": removing directory, " ++ Call.marked path ++ ['\n'])
  match ← removeEmpty path with
  | some e =>
    if c.has "ignore" ∧ e = .notEmpty then return true
    c.failed "failed to remove" path e
    return false
  | none => if c.has "p" then removeParents c path.length path else return true

def rmdirTool : Tool :=
  .of "pv" [flag "parents" "p", flag "verbose" "v",
    flag "ignore-fail-on-non-empty" "ignore"] (needs 1 rmdir)

/-- Removes an entry with all that is in it. Whether it is gone. -/
def removeTree (c : Call) : Nat → List Char → Act Bool
  | 0, _ => return false
  | limit + 1, path => do
    let files := (← get).view
    match files.locateEntry (pathOf path), files.findEntry (pathOf path) with
    | .ok place, .ok e =>
      if e.isDirectory then
        let gone ← (files.namesAt place).mapM fun n =>
          removeTree c limit (inDirectory path (octets n))
        if !gone.all id then return false
      modify fun s => s.update (s.view.remove place)
      if c.has "v" then
        let what := if e.isDirectory then "removed directory " else "removed "
        print (octets what ++ Call.marked path ++ ['\n'])
      return true
    | .error e, _ | _, .error e =>
      c.failed "cannot remove" path e
      return false

def removeOne (c : Call) (path : List Char) : Act Bool := do
  let recursive := c.has "r"
  let refuse (e : FileError) : Act Bool := do
    if c.has "f" ∧ (e = .notFound ∨ e = .notDirectory) then return true
    c.failed "cannot remove" path e
    return false
  match ← entryAt path with
  | .error e => refuse e
  | .ok e =>
    if e.isDirectory ∧ !recursive then
      if !c.has "d" then refuse .isDirectory
      else match ← removeEmpty path with
        | some e => refuse e
        | none =>
          if c.has "v" then print (octets "removed directory " ++ Call.marked path ++ ['\n'])
          return true
    else if e.isDirectory ∧ [['.'], ['.', '.']].contains (lastName path) then
      c.complain (octets "refusing to remove '.' or '..' directory: skipping " ++ Call.marked path)
      return false
    else if e.isDirectory ∧ (bare path) = ['/'] ∧ !c.has "no-preserve-root" then
      c.complain (octets "it is dangerous to operate recursively on '/'")
      c.complain (octets "use --no-preserve-root to override this failsafe")
      return false
    else removeTree c Files.pathLimit path

def rm (c : Call) : Act Nat := do
  if c.operands.isEmpty then
    if c.has "f" then return 0 else return ← c.misused 1 (octets "missing operand")
  eachOperand c (removeOne c)

def plainly (c : Call) : Call :=
  { c with options := c.options.map fun (o, v) => (if o = "R" then "r" else o, v) }

def rmTool : Tool :=
  .of "dfrRv" [flag "force" "f", flag "recursive" "r", flag "dir" "d", flag "verbose" "v",
    flag "no-preserve-root" "no-preserve-root"] (fun c => rm (plainly c))

end Removing

namespace Naming

def lineEnd (c : Call) : List Char := if c.has "z" then ['\x00'] else ['\n']

/-- The last name in a path without an ending. A name that is all ending keeps it. -/
def baseName (path ending : List Char) : List Char :=
  let name := if path.isEmpty then []
    else if (bare path) = ['/'] then ['/'] else lastName path
  let size := name.length - ending.length
  if !ending.isEmpty ∧ ending.length < name.length ∧ name.drop size = ending then name.take size
  else name

def basename (c : Call) : Act Nat := do
  let several := c.has "a" || c.has "s"
  match c.operands with
  | [] => c.misused 1 (octets "missing operand")
  | path :: rest =>
    if !several ∧ 1 < rest.length then
      return ← c.misused 1 (octets "extra operand " ++ c.cited (rest.getD 1 []))
    let (paths, ending) := if several then (c.operands, (c.value? "s").getD [])
      else ([path], rest.headD [])
    paths.forM fun p => print (baseName p ending ++ lineEnd c)
    return 0

def basenameTool : Tool :=
  .ordered "as:z" [flag "multiple" "a", valued "suffix" "s", flag "zero" "z"] basename

def directoryName (path : List Char) : List Char :=
  let inner := bare path
  let above := inner.take (inner.length - (lastName path).length)
  if path.isEmpty then ['.']
  else if inner = ['/'] then ['/']
  else if above.isEmpty then ['.'] else bare above

def dirname (c : Call) : Act Nat := do
  c.operands.forM fun p => print (directoryName p ++ lineEnd c)
  return 0

def dirnameTool : Tool := .of "z" [flag "zero" "z"] (needs 1 dirname)

end Naming

end TestBench.Tools
