import TestBench.Shell.Redirect
import TestBench.Tools.Sed.Script

/-!
Editing lines by a script. A line is taken into a space, the instructions change
the space one after the other, and what is left in it is written.
-/
namespace TestBench.Tools.Sed

open Shell

/-- Whether a range of lines has begun, and where it ends if this is a line's number. -/
inductive Range where
  | before
  | within (stop : Option Nat)
  | behind
  deriving DecidableEq, Repr

/-- What is written when the next line is taken. -/
inductive Later where
  | text (cs : List Char)
  | file (path : List Char)
  deriving DecidableEq, Repr

/-- What stays the same while lines are edited. -/
structure Setting where
  script : Script
  isWide : Bool
  isQuiet : Bool
  isSeparate : Bool
  /-- Whether files are edited in place, and what their old forms are named after. -/
  inPlace : Option (List Char)
  ending : Char

/-- The lines that are still to be edited, and what there is besides them. -/
structure State where
  space : List Char
  held : List Char
  /-- Whether the line in the space has had an end. -/
  isEnded : Bool
  line : Nat
  hasReplaced : Bool
  ranges : Array Range
  later : List Later
  lastPattern : Option Pattern
  path : List Char
  rest : List Char
  isCut : Bool
  /-- How much of the text has been taken. -/
  taken : Nat
  paths : List (List Char)
  /-- What has been written in place of a file, the last piece first. -/
  written : Option (List (List Char))
  /-- What is to be written to the usual output together, the last piece first, and its size. -/
  pieces : List (List Char)
  size : Nat
  /-- Outputs whose last line has no end. None stands for the usual one. -/
  unended : List (Option (List Char))
  isFaulty : Bool

abbrev Editing (α : Type) := StateT State Act α

/-- How the instructions for a line have ended. -/
inductive Step where
  | whole
  | dropped
  | again
  | leave (status : Nat)
  deriving DecidableEq, Repr

def badInput : Nat := 2

def panicked : Nat := 4

def program : List Char := octets "sed"

namespace Editing

variable (g : Setting)

def complain (message : List Char) : Editing Unit := say (program ++ octets ": " ++ message)

def blockSize : Nat := 4096

/-- Writes what is still to be written to the usual output. -/
def release : Editing Unit := do
  let s ← get
  set { s with pieces := [], size := 0 }
  Shell.print s.pieces.reverse.flatten

def starve {α : Type} : Editing α := do
  release
  throw .starved

def panic {α : Type} (message : List Char) : Editing α := do
  complain message
  release
  exitWith panicked

/-- Writes to the usual output as it is. -/
def emit (text : List Char) : Editing Unit := do
  match (← get).written with
  | some pieces => modify fun s => { s with written := some (text :: pieces) }
  | none =>
    modify fun s => { s with pieces := text :: s.pieces, size := s.size + text.length }
    if blockSize ≤ (← get).size then release

def appendFile (path text : List Char) : Act Unit := do
  let s ← get
  let files := s.view
  if path = octets "/dev/stdout" then Shell.print text
  else if path = octets "/dev/stderr" then write 2 text
  else match files.find (pathOf path) with
    | .ok (.file n) =>
      set (s.update (files.rewrite n (files.bytesOf n ++ Octets.toBytes text)))
    | _ => return ()

/-- Writes a text to an output. The last line there gets an end first, if it has none. -/
def writeOn (target : Option (List Char)) (text : List Char) (isEnded : Bool) : Editing Unit := do
  let s ← get
  let target := if target = some (octets "/dev/stdout") ∧ s.written.isNone then none else target
  let missing := if s.unended.contains target then [g.ending] else []
  let others := s.unended.filter (· != target)
  set { s with unended := if isEnded then others else target :: others }
  let shown := missing ++ text ++ (if isEnded then [g.ending] else [])
  match target with
  | none => emit shown
  | some path => appendFile path shown

def narrow (cs : List Char) : List Char := Octets.narrow g.isWide cs

/-- Writes a text of several lines, the last of which has its end. -/
def writeText (text : List Char) : Editing Unit := do
  let s ← get
  let missing := if s.unended.contains none then [g.ending] else []
  set { s with unended := s.unended.filter (· != none) }
  emit (missing ++ text)

def writeSpace : Editing Unit := do
  let s ← get
  writeOn g none (narrow g s.space) s.isEnded

def flush : Editing Unit := do
  let s ← get
  set { s with later := [] }
  s.later.forM fun l => do
    match l with
    | .text cs => writeText g cs
    | .file path =>
      match ← readWhole (if path = octets "/dev/stdin" then standardInput else path) with
      | .ok text => unless text.isEmpty do writeText g text
      | .error _ => pure ()

/-- Puts what has been written in the place of the file that was read. -/
def closeFile : Editing Unit := do
  let s ← get
  if let (some pieces, some suffix) := (s.written, g.inPlace) then
    let text := pieces.reverse.flatten
    let path := s.path
    set { s with written := none, unended := s.unended.filter (· != none) }
    let session : Session ← getThe Session
    let files := session.view
    let name := (Path.fileName? path).getD path
    let named := if suffix.contains '*' then
        suffix.flatMap fun c => if c = '*' then name else [c]
      else name ++ suffix
    let kept := if named.contains '/' then named else path.take (path.length - name.length) ++ named
    let mode := match files.find (pathOf path) with
      | .ok (.file n) => ((files.content? n).map (·.attributes.mode)).getD 0
      | _ => 0
    let old := (files.read (pathOf path)).toOption.getD []
    let files := if suffix.isEmpty then files
      else match files.locate (pathOf kept) with
        | .ok place => files.create place mode old
        | .error _ => files
    match files.locate (pathOf path) with
    | .ok place =>
      modifyThe Session (·.update (files.create place mode (Octets.toBytes text)))
    | .error _ => pure ()

def openFile (path : List Char) : Editing Unit := do
  closeFile g
  let before ← get
  passOver before.path before.taken
  modify fun s => { s with path := path, taken := 0 }
  let place := if path = standardInput ∧ g.inPlace.isSome then octets "./-" else path
  match ← look place with
  | .error e =>
    if g.inPlace.isSome ∧ e = .isDirectory then
      panic (octets "couldn't edit " ++ path ++ octets ": not a regular file")
    else if e = .isDirectory then
      panic (octets "read error on " ++ path ++ octets (": " ++ e.reason))
    else
      complain (octets "can't read " ++ path ++ octets (": " ++ e.reason))
      modify fun s => { s with isFaulty := true, rest := [], isCut := false }
  | .ok (text, isCut) =>
    modify fun s => { s with
      path := path, rest := text, isCut := isCut, taken := 0
      written := if g.inPlace.isSome then some [] else none
      line := if g.isSeparate then 0 else s.line
      ranges := if g.isSeparate then s.ranges.map fun _ => .before else s.ranges }

/-- Opens files up to one that has lines. -/
def openNext : List (List Char) → Editing Unit
  | [] => return ()
  | path :: rest => do
    let s ← get
    if s.rest.isEmpty then
      if s.isCut then starve
      set { s with paths := rest }
      openFile g path
      openNext rest

/-- Whether there is no line behind this one. -/
def isLast : Editing Bool := do
  if g.isSeparate then
    let s ← get
    if s.rest.isEmpty ∧ s.isCut then starve
    return s.rest.isEmpty
  openNext g (← get).paths
  let s ← get
  if s.rest.isEmpty ∧ s.isCut then starve
  return s.rest.isEmpty

/-- Takes the next line, if there is one. -/
def nextLine? : Editing (Option (List Char)) := do
  flush g
  modify fun s => { s with hasReplaced := false }
  openNext g (← get).paths
  let s ← get
  if s.rest.isEmpty then
    if s.isCut then starve
    return none
  let line := s.rest.takeWhile (· != g.ending)
  let behind := s.rest.drop line.length
  let isEnded := !behind.isEmpty
  let size := line.length + (if isEnded then 1 else 0)
  if s.isCut && !isEnded then starve
  set { s with rest := behind.tail, taken := s.taken + size, isEnded := isEnded
               line := s.line + 1 }
  return some (Octets.widen g.isWide line)

/-- The expression that is meant, which is the last one if none is written. -/
def known (p : Option Pattern) : Editing Pattern := do
  match p with
  | some p =>
    modify fun s => { s with lastPattern := some p }
    return p
  | none =>
    match (← get).lastPattern with
    | some p => return p
    | none =>
      complain (octets "-e expression #1, char 0: no previous regular expression")
      release
      exitWith 1

def isAt (a : Address) : Editing Bool := do
  let s ← get
  match a with
  | .line n => return s.line = n
  | .last => isLast g
  | .matching p =>
    let p ← known p
    return p.expression.isIn p.severalLines s.space
  | .ahead _ => return false

/-- Begins a range at this line, unless the range ends here too. -/
def beginRange (index : Nat) (second : Address) : Editing Unit := do
  let n := (← get).line
  let stop := match second with
    | .line m => some m
    | .ahead m => some (n + m)
    | _ => none
  let range : Range := if stop.any (· ≤ n) then .behind else .within stop
  modify fun s => { s with ranges := s.ranges.setIfInBounds index range }

/-- Whether an instruction is for the line in the space. -/
def isFor (index : Nat) (i : Instruction) : Editing Bool := do
  match i.first, i.second with
  | none, _ => return true
  | some a, none => isAt g a
  | some a, some b =>
    let s ← get
    let put (r : Range) : Editing Unit :=
      modify fun s => { s with ranges := s.ranges.setIfInBounds index r }
    let range := (s.ranges[index]?).getD .before
    let isAtOnce : Bool := match a with
      | .line 0 => true
      | _ => false
    let range := if range = .before ∧ isAtOnce then Range.within none else range
    match range with
    | .within (some stop) =>
      if stop ≤ s.line then put .behind
      return s.line ≤ stop
    | .within none =>
      if ← isAt g b then put .behind
      return true
    | _ =>
      let starts ← match a with
        | .line n => pure (range = .before ∧ n ≤ s.line ∧ 0 < n : Bool)
        | _ => isAt g a
      if starts then beginRange index b
      return starts

/-- A character with the case that is asked for. -/
def recased (next always : Capitals) (c : Char) : Char :=
  match next, always with
  | .nextUpper, _ => c.toUpper
  | .nextLower, _ => c.toLower
  | _, .upper => c.toUpper
  | _, .lower => c.toLower
  | _, _ => c

def filled (m : Regex.Match) (parts : List Part) : List Char :=
  (parts.foldl (fun ((next, always, found) : Capitals × Capitals × List Char) p =>
    let add (cs : List Char) : Capitals × Capitals × List Char :=
      match cs with
      | [] => (next, always, found)
      | c :: cs => (.unchanged, always,
          found ++ recased next always c :: cs.map (recased .unchanged always))
    match p with
    | .text cs => add cs
    | .group n => add (m.group n)
    | .capitals .nextUpper => (.nextUpper, always, found)
    | .capitals .nextLower => (.nextLower, always, found)
    | .capitals c => (.unchanged, c, found)) (.unchanged, .unchanged, [])).2.2

/-- Replaces matches from a point on. The last match that is not empty ended at another one, where
no empty match may follow it. -/
def replaceFrom (p : Pattern) (sub : Substitution) (isPlain : Bool) :
    Nat → Nat → Option Nat → Point → Option (List Char)
  | 0, _, _, _ => none
  | limit + 1, count, lastStop, at_ =>
    match p.expression.find? p.severalLines at_ with
    | none => none
    | some m =>
      let before := at_.upTo m.start
      let goOn (count : Nat) (found : List Char) : Option (List Char) × List Char :=
        if m.start.index < m.stop.index then
          (replaceFrom p sub isPlain limit count (some m.stop.index) m.stop,
            before ++ found ++ m.stop.rest)
        else match m.stop.rest with
          | [] => (none, before ++ found)
          | c :: rest =>
            let next : Point := ⟨m.stop.index + 1, some c, rest⟩
            ((replaceFrom p sub isPlain limit count none next).map (c :: ·),
              before ++ found ++ c :: rest)
      let together (count : Nat) (found : List Char) : Option (List Char) :=
        (goOn count found).1.map (before ++ found ++ ·)
      if m.start.index = m.stop.index ∧ lastStop = some m.start.index then together count []
      else if count + 1 < sub.number then together (count + 1) m.text
      else
        let found := if isPlain then sub.parts.flatMap fun p => match p with
            | .text cs => cs
            | _ => []
          else filled m sub.parts
        if sub.isGlobal then
          let (more, alone) := goOn (count + 1) found
          some ((more.map (before ++ found ++ ·)).getD alone)
        else some (before ++ found ++ m.stop.rest)

def substitute (sub : Substitution) : Editing Unit := do
  let p ← known sub.pattern
  let s ← get
  let isPlain := sub.parts.all fun p => match p with
    | .text _ => true
    | _ => false
  match replaceFrom p sub isPlain (2 * s.space.length + 3) 0 none (Point.start s.space) with
  | none => return ()
  | some space =>
    modify fun s => { s with space := space, hasReplaced := true }
    if sub.prints then writeSpace g
    if let some path := sub.output then
      let s ← get
      writeOn g (some path) (narrow g s.space) s.isEnded

def firstLine (cs : List Char) : List Char := cs.takeWhile (· != '\n')

/-- Puts something off until the next line is taken. -/
def putOff (l : Later) : Editing Unit := modify fun s => { s with later := s.later ++ [l] }

def setSpace (f : State → List Char) : Editing Unit := modify fun s => { s with space := f s }

/-- Does what an instruction says. What comes next is another instruction or the end. -/
def act (index : Nat) (a : Action) : Editing (Nat ⊕ Step) := do
  let goOn : Editing (Nat ⊕ Step) := return .inl (index + 1)
  let s ← get
  match a with
  | .block _ => goOn
  | .append text =>
    unless text.isEmpty do putOff (.text text)
    goOn
  | .insert text =>
    unless text.isEmpty do writeText g text
    goOn
  | .change text =>
    let isWithin := match (s.ranges[index]?).getD .before with
      | .within _ => true
      | _ => false
    unless isWithin || text.isEmpty do writeText g text
    return .inr .dropped
  | .jump condition target =>
    let isMade := match condition with
      | .always => true
      | .replaced => s.hasReplaced
      | .notReplaced => !s.hasReplaced
    if condition ≠ .always then modify fun s => { s with hasReplaced := false }
    return if isMade then .inl (target.getD g.script.instructions.size) else .inl (index + 1)
  | .quit silently status =>
    unless silently || g.isQuiet do writeSpace g
    unless silently do flush g
    return .inr (.leave status)
  | .delete => return .inr .dropped
  | .deleteLine =>
    if s.space.contains '\n' then
      setSpace fun s => (s.space.dropWhile (· != '\n')).tail
      return .inr .again
    return .inr .dropped
  | .fetch =>
    setSpace (·.held)
    goOn
  | .fetchMore =>
    setSpace fun s => s.space ++ '\n' :: s.held
    goOn
  | .hold =>
    modify fun s => { s with held := s.space }
    goOn
  | .holdMore =>
    modify fun s => { s with held := s.held ++ '\n' :: s.space }
    goOn
  | .exchange =>
    modify fun s => { s with held := s.space, space := s.held }
    goOn
  | .next =>
    if ← isLast g then return .inr (if g.isQuiet then .dropped else .whole)
    unless g.isQuiet do writeSpace g
    let line ← nextLine? g
    setSpace fun _ => line.getD []
    goOn
  | .nextMore =>
    if ← isLast g then return .inr (if g.isQuiet then .dropped else .whole)
    let line ← nextLine? g
    setSpace fun s => s.space ++ '\n' :: line.getD []
    goOn
  | .print =>
    writeSpace g
    goOn
  | .printLine =>
    writeOn g none (narrow g (firstLine s.space)) true
    goOn
  | .number =>
    writeText g (digitsText s.line ++ ['\n'])
    goOn
  | .readFile path =>
    putOff (.file path)
    goOn
  | .writeTo path =>
    writeOn g (some path) (narrow g s.space) s.isEnded
    goOn
  | .substitute sub =>
    substitute g sub
    goOn
  | .transliterate pairs =>
    setSpace fun s => s.space.map fun c => (List.lookup c pairs).getD c
    goOn

def run : Nat → Nat → Editing Step
  | 0, _ => throw .never
  | limit + 1, index => do
    match g.script.instructions[index]? with
    | none => return .whole
    | some i =>
      if (← isFor g index i) = i.isInverted then
        run limit (match i.action with
          | .block stop => stop
          | _ => index + 1)
      else match ← act g index i.action with
        | .inl next => run limit next
        | .inr step => return step

/-- Edits one line after the other, and comes back with a status if one has been asked for. -/
def cycles : Nat → Bool → Editing (Option Nat)
  | 0, _ => throw .never
  | limit + 1, takesLine => do
    if takesLine then
      match ← nextLine? g with
      | none => return none
      | some line => setSpace fun _ => line
    else flush g
    match ← run g limit 0 with
    | .whole =>
      unless g.isQuiet do writeSpace g
      cycles limit true
    | .dropped => cycles limit true
    | .again => cycles limit false
    | .leave status => return some status

/-- Edits all lines, and leaves what has not been looked at as it is. -/
def whole : Editing (Option Nat) := do
  let status ← cycles g (1 <<< 60) true
  if status.isNone then flush g
  else modify fun s => { s with written := s.written.map fun pieces => s.rest :: pieces }
  closeFile g
  release
  return status

end Editing

def usage : String :=
  "Usage: sed [OPTION]... \x7bscript-only-if-no-other-script\x7d [input-file]..."

/-- The parts of the script in the options, and the file of one that cannot be read. -/
def partsIn (c : Call) : Act (Except (List Char × FileError) (List (Origin × List Char))) := do
  let mut found := []
  let mut count := 1
  for (option, value) in c.options do
    if option = "e" then
      found := found ++ [(Origin.expression count, value)]
      count := count + 1
    if option = "f" then
      match ← readWhole value with
      | .error e => return .error (value, e)
      | .ok text => found := found ++ [(Origin.file value, text)]
  return .ok found

def edit (c : Call) : Act Nat := do
  let refuse (message : List Char) (status : Nat) : Act Nat := do
    say (program ++ octets ": " ++ message)
    return status
  let isGiven := c.has "e" || c.has "f"
  match isGiven, c.operands with
  | false, [] =>
    say (octets usage)
    return 1
  | _, _ =>
    match ← partsIn c with
    | .error (path, e) =>
      refuse (octets "couldn't open file " ++ path ++ octets (": " ++ e.reason)) panicked
    | .ok given =>
      let parts := if isGiven then given
        else (c.operands.take 1).map (Origin.expression 1, ·)
      let paths := if isGiven then c.operands else c.operands.tail
      match Script.parse c.isWide (c.has "E") parts with
      | .error (message, status) => refuse message status
      | .ok script =>
        for path in script.outputs.eraseDups do
          unless (octets "/dev/stdout" = path) ∨ (octets "/dev/stderr" = path) do
            match (← get).view.write (pathOf path) [] with
            | .ok files => modify (·.update files)
            | .error e =>
              say (program ++ octets ": couldn't open file " ++ path ++ octets (": " ++ e.reason))
              exitWith panicked
        if c.has "i" ∧ paths.isEmpty then return ← refuse (octets "no input files") panicked
        let g : Setting :=
          { script := script, isWide := c.isWide
            isQuiet := script.isQuiet || c.has "n"
            isSeparate := c.has "s" || c.has "i", inPlace := c.value? "i", ending := c.ending }
        let state : State :=
          { space := [], held := [], isEnded := true, line := 0, hasReplaced := false
            ranges := script.instructions.map fun _ => .before, later := [], lastPattern := none
            path := [], rest := [], isCut := false, taken := 0
            paths := if paths.isEmpty then [standardInput] else paths
            written := none, pieces := [], size := 0, unended := [], isFaulty := false }
        let (status, s) ← StateT.run (Editing.whole g) state
        passOver s.path s.taken
        return status.getD (if s.isFaulty then badInput else 0)

def tool : Tool :=
  { Tool.of "nrEe:f:i::suz" [flag "quiet" "n", flag "silent" "n", valued "expression" "e",
      valued "file" "f", ⟨"in-place", "i", .perhaps⟩, flag "regexp-extended" "E",
      flag "separate" "s", flag "unbuffered" "u", flag "null-data" "z"] fun c =>
        edit { c with options := c.options.map fun (o, v) => (if o = "r" then "E" else o, v) } with
    advice := .usage usage }

end TestBench.Tools.Sed
