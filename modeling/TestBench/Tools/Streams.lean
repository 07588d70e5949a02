import TestBench.Tools.Text

/-!
Programs that pass texts on, whole or in part: from their beginning, from their
end, counted or written to further files.
-/
namespace TestBench.Tools

open Shell

namespace Cat

structure Style where
  numbers : Bool
  numbersFilled : Bool
  squeezes : Bool
  showsEnds : Bool
  showsTabs : Bool
  showsControls : Bool

def Style.of (c : Call) : Style :=
  { numbers := c.has "n", numbersFilled := c.has "b", squeezes := c.has "s"
    showsEnds := c.has "E" || c.has "A" || c.has "e"
    showsTabs := c.has "T" || c.has "A" || c.has "t"
    showsControls := c.has "v" || c.has "A" || c.has "e" || c.has "t" }

def Style.isPlain (s : Style) : Bool :=
  !(s.numbers || s.numbersFilled || s.squeezes || s.showsEnds || s.showsTabs || s.showsControls)

def visible (s : Style) (c : Char) : List Char :=
  let low (n : Nat) : List Char :=
    if n < 32 then ['^', Char.ofNat (n + 64)] else if n = 127 then ['^', '?'] else [Char.ofNat n]
  if c = '\t' then (if s.showsTabs then ['^', 'I'] else ['\t'])
  else if !s.showsControls then [c]
  else if c.toNat < 128 then low c.toNat
  else ['M', '-'] ++ low (c.toNat - 128)

/-- What has gone before: the number of the last line, whether a line begins, and how many empty
lines there were just now. -/
structure Progress where
  line : Nat
  atStart : Bool
  empties : Nat

def addRecord (s : Style) (p : Progress) (record : List Char) : List Char × Progress :=
  let isEnded := record.getLast? = some '\n'
  let body := if isEnded then record.dropLast else record
  let isEmpty := p.atStart && body.isEmpty
  if s.squeezes && isEmpty && 0 < p.empties then ([], { p with empties := p.empties + 1 })
  else
    let counts := p.atStart && (if s.numbersFilled then !isEmpty else s.numbers)
    let line := if counts then p.line + 1 else p.line
    let label := if counts then rightAligned 6 (digitsText line) ++ ['\t'] else []
    let ending := if isEnded then (if s.showsEnds then ['$', '\n'] else ['\n']) else []
    (label ++ body.flatMap (visible s) ++ ending,
      ⟨line, isEnded, if isEmpty then p.empties + 1 else 0⟩)

def addText (s : Style) (p : Progress) (text : List Char) : List Char × Progress :=
  (wholeLines text).foldl (fun (shown, p) record =>
    let (more, p) := addRecord s p record
    (shown ++ more, p)) ([], p)

/-- Whether a file is the one that is written to, with something in it already. -/
def isOutput (path : List Char) : Act Bool := do
  let s ← get
  match s.channel? 1, s.view.find (pathOf path) with
  | some (_, .file n _ _), .ok (.file m) => return n = m && !(s.contentOf n).isEmpty
  | _, _ => return false

def run (c : Call) : Act Nat := do
  let style := Style.of c
  let step (state : Progress × Bool) (path : List Char) : Act (Progress × Bool) := do
    if path ≠ standardInput ∧ (← isOutput path) then
      c.complain (Call.shown path ++ octets ": input file is output file")
      return (state.1, false)
    match ← readLines path with
    | .error e =>
      c.about path e
      return (state.1, false)
    | .ok (text, isCut) =>
      let (shown, p) := if style.isPlain then (text, state.1) else addText style state.1 text
      print shown
      if isCut then throw .starved
      return (p, state.2)
  let (_, complete) ← c.inputs.foldlM step (⟨0, true, 0⟩, true)
  if c.inputs.contains standardInput ∧ ((← get).channel? 0).isNone then
    c.complain (octets ("closing standard input: " ++ FileError.badDescriptor.reason))
  return ofTruth complete

def tool : Tool :=
  .of "AbeEnstTuv" [flag "show-all" "A", flag "number-nonblank" "b", flag "show-ends" "E",
    flag "number" "n", flag "squeeze-blank" "s", flag "show-tabs" "T",
    flag "show-nonprinting" "v"] run

end Cat

/-- Shows a part of each text, under its name if there are several. -/
def underNames (c : Call) (paths : List (List Char)) (act : List Char → Act (Option FileError)) :
    Act Nat := do
  let several := (1 < paths.length || c.has "v") && !c.has "q"
  let step (state : Bool × Bool) (path : List Char) : Act (Bool × Bool) := do
    let header : Act Unit := do
      if several then
        let shown := if path = standardInput then octets "standard input" else path
        print ((if state.1 then [] else ['\n']) ++ octets "==> " ++ shown ++ octets " <==\n")
    match (← get).view.find (pathOf path) with
    | .error e =>
      if path ≠ standardInput then
        c.complain (octets "cannot open " ++ Call.marked path
          ++ octets (" for reading: " ++ e.reason))
        return (state.1, false)
    | .ok _ => pure ()
    header
    match ← act path with
    | none => return (false, state.2)
    | some e =>
      c.failed "error reading" path e
      return (false, false)
  let (_, complete) ← paths.foldlM step (true, true)
  return ofTruth complete

namespace Head

/-- A number of lines or bytes, counted from the end if it is negative. -/
def amount? (cs : List Char) : Option (Bool × Nat) :=
  match cs with
  | '-' :: rest => (size? rest).map (true, ·)
  | '+' :: rest => (size? rest).map (false, ·)
  | _ => (size? cs).map (false, ·)

def part (bytes : Bool) (ending : Char) (fromEnd : Bool) (n : Nat) (path : List Char) :
    Act (Option FileError) := do
  match ← look path with
  | .error e => return some e
  | .ok (text, isCut) =>
    let shown :=
      if bytes then (if fromEnd then dropLast n text else text.take n)
      else
        let records := recordsOf ending text
        (if fromEnd then dropLast n records else records.take n).flatten
    let isWhole := if bytes then n ≤ text.length else n ≤ text.count ending
    if isCut && (fromEnd || !isWhole) then throw .starved
    print shown
    passOver path (if fromEnd then text.length else shown.length)
    return none

def run (c : Call) : Act Nat := do
  let bytes := c.last? ["c", "n"] = some "c"
  let text := ((c.last? ["c", "n"]).bind c.value?).getD ['1', '0']
  match amount? text with
  | none =>
    c.complain (octets ("invalid number of " ++ (if bytes then "bytes" else "lines") ++ ": ")
      ++ c.cited text)
    return 1
  | some (fromEnd, n) => underNames c c.inputs (part bytes c.ending fromEnd n)

def tool : Tool :=
  { Tool.of "c:n:qvz" [valued "bytes" "c", valued "lines" "n", flag "quiet" "q", flag "silent" "q",
      flag "verbose" "v", flag "zero-terminated" "z"] run with dashed := .count "n" }

end Head

namespace Tail

/-- A number of lines or bytes, counted from the beginning after a plus sign. -/
def amount? (cs : List Char) : Option (Bool × Nat) :=
  match cs with
  | '+' :: rest => (size? rest).map (true, ·)
  | '-' :: rest => (size? rest).map (false, ·)
  | _ => (size? cs).map (false, ·)

def part (bytes : Bool) (ending : Char) (fromStart : Bool) (n : Nat) (path : List Char) :
    Act (Option FileError) := do
  match ← readWhole path with
  | .error e => return some e
  | .ok text =>
    let last {α : Type} (xs : List α) : List α :=
      if fromStart then xs.drop (n - 1) else takeLast n xs
    print (if bytes then last text else (last (recordsOf ending text)).flatten)
    return none

def run (c : Call) : Act Nat := do
  let (given, paths) := match c.operands with
    | ('+' :: digits) :: rest =>
      if c.options.isEmpty ∧ rest.length ≤ 1 ∧ (size? digits).isSome then
        (some ('+' :: digits), rest)
      else (none, c.operands)
    | _ => (none, c.operands)
  let bytes := c.last? ["c", "n"] = some "c"
  let text := (given.or ((c.last? ["c", "n"]).bind c.value?)).getD ['1', '0']
  match amount? text with
  | none =>
    c.complain (octets ("invalid number of " ++ (if bytes then "bytes" else "lines") ++ ": ")
      ++ c.cited text)
    return 1
  | some (fromStart, n) =>
    underNames c (if paths.isEmpty then [standardInput] else paths)
      (part bytes c.ending fromStart n)

def tool : Tool :=
  { Tool.of "c:n:qvz" [valued "bytes" "c", valued "lines" "n", flag "quiet" "q",
      flag "silent" "q", flag "verbose" "v", flag "zero-terminated" "z"] run with
    dashed := .count "n" }

end Tail

namespace WordCount

/-- How many lines, words, characters and bytes a text has. -/
structure Counts where
  lines : Nat
  words : Nat
  characters : Nat
  bytes : Nat

def Counts.add (a b : Counts) : Counts :=
  ⟨a.lines + b.lines, a.words + b.words, a.characters + b.characters, a.bytes + b.bytes⟩

def countWords (cs : List Char) : Nat :=
  (cs.foldl (fun (inWord, n) c =>
    let blank := isSpaceCharacter c
    (!blank, if !blank && !inWord then n + 1 else n)) (false, 0)).2

def count (isWide : Bool) (cs : List Char) : Counts :=
  let characters := Octets.widen isWide cs
  ⟨cs.count '\n', countWords cs, (characters.filter fun c => !Octets.isStray c).length, cs.length⟩

def columns : List (String × (Counts → Nat)) :=
  [("l", (·.lines)), ("w", (·.words)), ("m", (·.characters)), ("c", (·.bytes))]

/-- The sizes of files decide how wide columns are. What is no file needs seven places. -/
def sizes (paths : List (List Char)) : Act (List (Option Nat)) := do
  let s ← get
  return paths.map fun path =>
    if path = standardInput then match s.channel? 0 with
      | some (_, .file n _ _) => some (s.contentOf n).length
      | _ => none
    else match s.view.find (pathOf path) with
      | .ok (.file n) => some (s.contentOf n).length
      | .ok _ => none
      | .error _ => some 0

def run (c : Call) : Act Nat := do
  let given := columns.filter fun (option, _) => c.has option
  let chosen := if given.isEmpty then columns.filter fun (o, _) => ["l", "w", "c"].contains o
    else given
  let found ← sizes c.inputs
  let width :=
    if c.inputs.length = 1 ∧ chosen.length = 1 then 1
    else
      let digits := (digitsText (total (found.filterMap id))).length
      if found.any (·.isNone) then max 7 digits else digits
  let line (counts : Counts) (label : List Char) : List Char :=
    [' '].intercalate (chosen.map fun (_, f) => rightAligned width (digitsText (f counts)))
      ++ (if label.isEmpty then [] else ' ' :: label)
  let step (state : Counts × Bool) (path : List Char) : Act (Counts × Bool) := do
    let label := if c.operands.isEmpty then [] else path
    match ← readWhole path with
    | .ok text =>
      let counts := count c.isWide text
      printLine (line counts label)
      return (state.1.add counts, state.2)
    | .error e =>
      c.about path e
      if e = .isDirectory then printLine (line ⟨0, 0, 0, 0⟩ label)
      return (state.1, false)
  let (sum, complete) ← c.inputs.foldlM step (⟨0, 0, 0, 0⟩, true)
  if 1 < c.operands.length then printLine (line sum (octets "total"))
  return ofTruth complete

def tool : Tool :=
  .of "clmw" [flag "bytes" "c", flag "chars" "m", flag "lines" "l", flag "words" "w"] run

end WordCount

namespace Tee

def run (c : Call) : Act Nat := do
  let prepared ← c.operands.mapM fun path => do
    let files := (← get).view
    let old := if c.has "a" then (files.read (pathOf path)).toOption.getD [] else []
    match files.write (pathOf path) old with
    | .ok files =>
      modify (·.update files)
      return some (path, old)
    | .error e =>
      c.about path e
      return none
  match ← readLines standardInput with
  | .error e =>
    c.complain (octets ("read error: " ++ e.reason))
    return 1
  | .ok (text, isCut) =>
    print text
    (prepared.filterMap id).forM fun (path, old) => do
      match (← get).view.write (pathOf path) (old ++ Octets.toBytes text) with
      | .ok files => modify (·.update files)
      | .error e => c.about path e
    if isCut then throw .starved
    return ofTruth (prepared.all (·.isSome))

def tool : Tool := .of "aip" [flag "append" "a", flag "ignore-interrupts" "i"] run

end Tee

end TestBench.Tools
