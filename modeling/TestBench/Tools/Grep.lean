import TestBench.Regex.Written
import TestBench.Tools.Text

/-!
Lines that are selected by what is found in them, or only the parts of them that
match.
-/
namespace TestBench.Tools.Grep

open Shell

def troubled : Nat := 2

def usage : String := "Usage: grep [OPTION]... PATTERNS [FILE]..."

inductive Form where
  | basic
  | extended
  | fixed
  deriving DecidableEq, Repr

def formOf (c : Call) : Form :=
  match c.last? ["E", "F", "G"] with
  | some "E" => .extended
  | some "F" => .fixed
  | _ => .basic

/-- Where a match may lie in its line. -/
inductive Extent where
  | anywhere
  | words
  | whole
  deriving DecidableEq, Repr

/-- The first match at a point or behind it. -/
abbrev Finder := Point → Option Regex.Match

/-- The longest match that begins and ends at the edge of a word, or the next one. -/
def wordMatch? (r : Regex) : Nat → Finder
  | 0, _ => none
  | limit + 1, p =>
    let stops := if p.isAfterWord then []
      else if r.repeats then (Regex.paths false r [] p).map (·.1)
      else Regex.ends false r p
    let stop := (stops.filter fun q => !q.isBeforeWord).foldl (fun (found : Option Point) q =>
      if found.any (q.index ≤ ·.index) then found else some q) none
    match stop with
    | some q => some ⟨p, q, []⟩
    | none => if p.rest.isEmpty then none else wordMatch? r limit (p.advance 1)

def finder (e : Extent) (r : Regex) : Finder :=
  match e with
  | .anywhere => Regex.find? false r
  | .words => fun p => wordMatch? r (p.rest.length + 1) p
  | .whole => Regex.find? false (.concat (.at .lineStart) (.concat r (.at .lineEnd)))

/-- An expression that matches what any of some expressions match. There may be none. -/
def anyOf : List Regex → Option Regex
  | [] => none
  | r :: rs => some (rs.foldl .either r)

def expressionOf (c : Call) (form : Form) (pattern : List Char) : Except (List Char) Regex :=
  let m : Regex.Manner := ⟨form = .extended, c.has "i", false⟩
  if form = .fixed then .ok (Regex.ofText m pattern)
  else match Regex.parse m pattern with
    | .ok (r, _) => .ok r
    | .error f => .error (octets f.message)

/-- All parts of a line that match and are not empty. -/
def parts (find : Finder) : Nat → Point → List Regex.Match
  | 0, _ => []
  | limit + 1, p =>
    match find p with
    | none => []
    | some m =>
      if m.start.index < m.stop.index then m :: parts find limit m.stop
      else if m.stop.rest.isEmpty then []
      else parts find limit (m.stop.advance 1)

structure Line where
  text : List Char
  number : Nat
  /-- How many bytes stand before the line. -/
  offset : Nat

def numbered (text : List Char) : List Line :=
  let bare (record : List Char) : List Char :=
    if record.getLast? = some '\n' then record.dropLast else record
  (((wholeLines text).foldl (fun ((number, offset, found) : Nat × Nat × List Line) record =>
    (number + 1, offset + record.length, ⟨bare record, number, offset⟩ :: found))
    (1, 0, [])).2.2).reverse

def label (c : Call) (showsNames : Bool) (path : List Char) (number : Nat) : List Char :=
  (if showsNames then path ++ [':'] else [])
    ++ (if c.has "n" then digitsText number ++ [':'] else [])

/-- The selected ones among lines, up to a number of them. -/
def select (isSelected : List Char → Bool) (most : Option Nat) : List Line → Nat → List Line
  | [], _ => []
  | l :: rest, found =>
    if most.any (· ≤ found) then []
    else if isSelected l.text then l :: select isSelected most rest (found + 1)
    else select isSelected most rest found

structure Report where
  isFound : Bool
  isComplete : Bool

def searchText (c : Call) (showsNames : Bool) (find : Finder) (path : List Char) : Act Report := do
  let shownPath := if path = standardInput then octets "(standard input)" else path
  match ← look path with
  | .error e =>
    unless c.has "s" do c.complain (path ++ octets (": " ++ e.reason))
    return ⟨false, false⟩
  | .ok (given, isCut) =>
    let text := if isCut then Path.dropTrailing (· != '\n') given else given
    let most := (c.value? "m").bind natural?
    let isSelected (l : List Char) : Bool :=
      (find (Point.start (Octets.widen c.isWide l))).isSome != c.has "v"
    let selected := select isSelected most (numbered text) 0
    let isFound := !selected.isEmpty
    let stops := c.has "q" || c.has "l" || c.has "L"
    let isFull := most.any (· ≤ selected.length)
    let waits := isCut && !(isFound && stops) && !isFull
    if waits && (stops || c.has "c") then throw .starved
    let hasEnd (l : Line) : Nat := if l.offset + l.text.length < text.length then 1 else 0
    passOver path (match isFull, selected.getLast? with
      | true, some l => l.offset + l.text.length + hasEnd l
      | true, none => 0
      | false, _ => text.length)
    let isBinary := !(c.has "a") && text.contains '\x00'
    let isIll (l : Line) : Bool := !(c.has "a") && c.isWide
      && (Octets.widen true l.text).any Octets.isStray
    if c.has "q" then return ⟨isFound, true⟩
    if c.has "c" then
      print ((if showsNames then shownPath ++ [':'] else []) ++ digitsText selected.length
        ++ ['\n'])
    if c.has "l" ∨ c.has "L" then
      if isFound = c.has "l" then printLine shownPath
      return ⟨isFound, true⟩
    if c.has "c" then return ⟨isFound, true⟩
    let fine := if isBinary then [] else selected.takeWhile fun l => !isIll l
    fine.forM fun l => do
      let before := label c showsNames shownPath l.number
      if c.has "o" then
        unless c.has "v" do
          (parts find (l.text.length + 1)
            (Point.start (Octets.widen c.isWide l.text))).forM fun m =>
              printLine (before ++ Octets.narrow c.isWide m.text)
      else printLine (before ++ l.text)
    if isFound && fine.length < selected.length then
      c.complain (shownPath ++ octets ": binary file matches")
    if waits then throw .starved
    return ⟨isFound, true⟩

def below (files : Files) (path : List Char) : Nat → List (List Char)
  | 0 => []
  | limit + 1 =>
    match files.findEntry (pathOf path) with
    | .ok (.directory _) =>
      (((files.list (pathOf path)).toOption.getD []).map octets).flatMap fun name =>
        below files (if path.getLast? = some '/' then path ++ name else path ++ '/' :: name) limit
    | .ok (.file _) => [path]
    | _ => []

/-- The paths that are searched, and whether they were found in directories. -/
def pathsOf (c : Call) (files : Files) (operands : List (List Char)) : List (List Char) × Bool :=
  if c.has "r" then
    let deep (path : List Char) : List (List Char) :=
      if files.isDirectory (pathOf path) then below files path Files.pathLimit else [path]
    if operands.isEmpty then ((deep ['.']).map (·.drop 2), true)
    else (operands.flatMap deep, operands.any fun p => files.isDirectory (pathOf p))
  else (if operands.isEmpty then [standardInput] else operands, false)

/-- The patterns in the files that have been named for them. -/
def patternsIn (c : Call) : Act (Except (List Char × FileError) (List (List Char))) := do
  let mut found := []
  for path in c.values "f" do
    match ← readWhole path with
    | .error e => return .error (path, e)
    | .ok text => found := found ++ linesOf text
  return .ok found

def run (c : Call) : Act Nat := do
  let refused (message : List Char) : Act Nat := do
    c.complain message
    return troubled
  let isGiven := c.has "e" || c.has "f"
  if !isGiven ∧ c.operands.isEmpty then
    say (octets usage)
    { c with name := (Path.fileName? c.name).getD c.name }.sayHelp
    return troubled
  let operands := if isGiven then c.operands else c.operands.tail
  let written := if isGiven then c.values "e" else c.operands.take 1
  match ← patternsIn c with
  | .error (path, e) => refused (path ++ octets (": " ++ e.reason))
  | .ok more =>
    let patterns := written.flatMap (Path.splitAt '\n') ++ more
    match patterns.mapM fun p => expressionOf c (formOf c) (Octets.widen c.isWide p) with
    | .error message => refused message
    | .ok rs =>
      if (c.value? "m").any fun n => (natural? n).isNone then
        return ← refused (octets "invalid max count")
      let extent : Extent := if c.has "x" then .whole else if c.has "w" then .words else .anywhere
      let find : Finder := match anyOf rs with
        | some r => finder extent r
        | none => fun _ => none
      let (paths, isDeep) := pathsOf c (← get).view operands
      let showsNames := match c.last? ["H", "h"] with
        | some "H" => true
        | some _ => false
        | none => isDeep || 1 < operands.length
      let step (state : Bool × Bool) (path : List Char) : Act (Bool × Bool) := do
        if state.1 && c.has "q" then return state
        let r ← searchText c showsNames find path
        return (state.1 || r.isFound, state.2 && r.isComplete)
      let (isFound, isComplete) ← paths.foldlM step (false, true)
      return if isFound && (isComplete || c.has "q") then 0
        else if isComplete then 1 else troubled

def tool : Tool :=
  { Tool.of "EFGHLace:f:hilm:noqrsvwx"
      [valued "regexp" "e", valued "file" "f", flag "ignore-case" "i", flag "invert-match" "v",
        flag "word-regexp" "w", flag "line-regexp" "x", flag "count" "c",
        flag "files-without-match" "L", flag "files-with-matches" "l", valued "max-count" "m",
        flag "only-matching" "o", flag "quiet" "q", flag "silent" "q", flag "no-messages" "s",
        flag "with-filename" "H", flag "no-filename" "h", flag "line-number" "n",
        flag "text" "a", flag "recursive" "r", flag "extended-regexp" "E",
        flag "fixed-strings" "F", flag "basic-regexp" "G"] run with
    failure := troubled, advice := .usage usage }

end TestBench.Tools.Grep
