import TestBench.Regex.Written
import TestBench.Tools.Text

/-!
Scripts that edit lines. Every instruction may say which lines it is for, and
instructions stand one after the other, with the places where blocks and jumps
lead to.
-/
namespace TestBench.Tools.Sed

open Shell

structure Pattern where
  expression : Regex
  severalLines : Bool

/-- Which lines are meant. An expression that is empty stands for the one that was used last. -/
inductive Address where
  | line (number : Nat)
  | last
  | matching (pattern : Option Pattern)
  /-- So many lines more. -/
  | ahead (count : Nat)

/-- What becomes of the letters that come next. -/
inductive Capitals where
  | upper
  | lower
  | nextUpper
  | nextLower
  | unchanged
  deriving DecidableEq, Repr

/-- A part of what takes the place of a match. -/
inductive Part where
  | text (cs : List Char)
  | group (number : Nat)
  | capitals (c : Capitals)
  deriving DecidableEq, Repr

structure Substitution where
  pattern : Option Pattern
  parts : List Part
  /-- The first match that is replaced, and whether those behind it are too. -/
  number : Nat
  isGlobal : Bool
  prints : Bool
  output : Option (List Char)

inductive Condition where
  | always
  | replaced
  | notReplaced
  deriving DecidableEq, Repr

inductive Action where
  /-- What is not done for other lines ends before this place. -/
  | block (stop : Nat)
  | append (text : List Char)
  | insert (text : List Char)
  | change (text : List Char)
  | jump (condition : Condition) (target : Option Nat)
  | quit (silently : Bool) (status : Nat)
  | delete
  | deleteLine
  | fetch
  | fetchMore
  | hold
  | holdMore
  | exchange
  | next
  | nextMore
  | print
  | printLine
  | number
  | readFile (path : List Char)
  | writeTo (path : List Char)
  | substitute (s : Substitution)
  | transliterate (pairs : List (Char × Char))

structure Instruction where
  first : Option Address
  second : Option Address
  isInverted : Bool
  action : Action

inductive Origin where
  | expression (number : Nat)
  | file (path : List Char)
  deriving DecidableEq, Repr

/-- What is still to be read of a part of a script, and what has been read. -/
structure Reader where
  origin : Origin
  whole : List Char
  rest : List Char
  isWide : Bool
  isExtended : Bool
  isQuiet : Bool
  instructions : Array Instruction
  /-- The places of blocks that have begun, each with the line. -/
  blocks : List (Nat × Nat × Origin)
  labels : List (List Char × Nat)
  jumps : List (Nat × List Char)
  /-- A text that goes on in the next part. -/
  pending : Option (List Char → Action)
  outputs : List (List Char)

/-- Why there is no script, and with which status this ends. -/
abbrev Refusal := List Char × Nat

abbrev Reading (α : Type) := StateT Reader (Except Refusal) α

namespace Reading

def place (o : Origin) (taken : List Char) (isWide : Bool) : List Char :=
  match o with
  | .expression number => octets "-e expression #" ++ digitsText number ++ octets ", char "
      ++ digitsText (Octets.narrow isWide taken).length ++ octets ": "
  | .file path => octets "file " ++ path ++ octets " line "
      ++ digitsText (taken.count '\n' + 1) ++ octets ": "

def refuse {α : Type} (message : List Char) : Reading α := do
  let s ← get
  let taken := s.whole.take (s.whole.length - s.rest.length)
  let counted := if taken.getLast? = some '\n' then taken.dropLast else taken
  throw (place s.origin (match s.origin with
    | .expression _ => taken
    | .file _ => counted) s.isWide ++ message, 1)

def reject {α : Type} (message : String) : Reading α := refuse (octets message)

def peek : Reading (Option Char) := return (← get).rest.head?

def skip : Reading Unit := modify fun s => { s with rest := s.rest.tail }

def take : Reading (Option Char) := do
  let c ← peek
  skip
  return c

def skipWhile (p : Char → Bool) : Reading Unit :=
  modify fun s => { s with rest := s.rest.dropWhile p }

def blanks : Reading Unit := skipWhile isBlankCharacter

def takeWhile (p : Char → Bool) : Reading (List Char) := do
  let cs := (← get).rest.takeWhile p
  skipWhile p
  return cs

def number : Reading Nat := do return decimal (← takeWhile (·.isDigit))

inductive Spot where
  | outside
  | opened
  | openedInverted
  | inside
  | named (sign : Char)
  deriving DecidableEq, Repr

/-- Where the next character stands, and whether the one after that belongs to this one. -/
def Spot.after (spot : Spot) (c : Char) (next : Option Char) : Spot :=
  let within : Spot :=
    match c, next with
    | '[', some sign => if [':', '.', '='].contains sign then .named sign else .inside
    | _, _ => .inside
  match spot with
  | .outside => if c = '[' then .opened else .outside
  | .opened => if c = '^' then .openedInverted else within
  | .openedInverted => within
  | .inside => if c = ']' then .outside else within
  | .named sign => if c = sign ∧ next = some ']' then .opened else .named sign

/-- A text up to a sign that ends it, and what follows that. The sign may stand within brackets,
or behind a backslash that is then left out. -/
def delimited? (sign : Char) (isPattern : Bool) :
    Nat → Spot → List Char → Option (List Char × List Char) × List Char
  | 0, _, rest => (none, rest)
  | _, _, [] => (none, [])
  | limit + 1, spot, c :: rest =>
    let goOn (cs : List Char) (spot : Spot) (rest : List Char) :
        Option (List Char × List Char) × List Char :=
      match delimited? sign isPattern limit spot rest with
      | (some (found, others), left) => (some (cs ++ found, others), left)
      | (none, left) => (none, left)
    if c = sign ∧ (!isPattern ∨ spot = .outside) then (some ([], rest), [])
    else if c = '\n' then (none, c :: rest)
    else if c = '\\' then
      match rest with
      | [] => (none, [])
      | d :: rest =>
        let spot := if spot = .opened ∨ spot = .openedInverted then .inside else spot
        if d = 'n' ∧ isPattern then goOn ['\n'] spot rest
        else if d = '\n' ∨ (d = sign ∧ (isPattern ∨ d ≠ '&')) then goOn [d] spot rest
        else if spot ≠ .outside ∧ d = ']' then goOn [c] spot (d :: rest)
        else goOn [c, d] spot rest
    else goOn [c] (if isPattern then spot.after c rest.head? else .outside) rest

def delimited (sign : Char) (isPattern : Bool) : Reading (Option (List Char)) := do
  let s ← get
  match delimited? sign isPattern (s.rest.length + 1) .outside s.rest with
  | (some (found, rest), _) =>
    set { s with rest := rest }
    return some found
  | (none, rest) =>
    set { s with rest := rest }
    return none

end Reading

/-- The character that stands behind a backslash under another name, and what follows it. -/
def produced? : List Char → Option (Char × List Char)
  | 'a' :: rest => some ('\x07', rest)
  | 'f' :: rest => some ('\x0c', rest)
  | 'n' :: rest => some ('\n', rest)
  | 'r' :: rest => some ('\r', rest)
  | 't' :: rest => some ('\t', rest)
  | 'v' :: rest => some ('\x0b', rest)
  | _ => none

def spelled : Nat → List Char → List Char
  | 0, _ | _, [] => []
  | limit + 1, '\\' :: rest =>
    match produced? rest, rest with
    | some (c, others), _ => c :: spelled limit others
    | none, c :: others => '\\' :: c :: spelled limit others
    | none, [] => ['\\']
  | limit + 1, c :: rest => c :: spelled limit rest

/-- A text whose lines have been joined by backslashes. -/
def plainText : Nat → List Char → List Char
  | 0, _ | _, [] => []
  | limit + 1, '\\' :: rest =>
    match produced? rest, rest with
    | some (c, others), _ => c :: plainText limit others
    | none, c :: others => c :: plainText limit others
    | none, [] => []
  | limit + 1, c :: rest => c :: plainText limit rest

def partsOf : Nat → List Char → List Part
  | 0, _ | _, [] => []
  | limit + 1, '&' :: rest => .group 0 :: partsOf limit rest
  | limit + 1, '\\' :: c :: rest =>
    let changed (c : Capitals) : List Part := .capitals c :: partsOf limit rest
    match c with
    | 'U' => changed .upper
    | 'L' => changed .lower
    | 'u' => changed .nextUpper
    | 'l' => changed .nextLower
    | 'E' => changed .unchanged
    | _ =>
      if c.isDigit then .group (c.toNat - '0'.toNat) :: partsOf limit rest
      else match produced? (c :: rest) with
        | some (d, others) => .text [d] :: partsOf limit others
        | none => .text [c] :: partsOf limit rest
  | limit + 1, c :: rest => .text [c] :: partsOf limit rest

/-- The largest number of a group among parts. -/
def lastGroup (parts : List Part) : Nat :=
  parts.foldl (fun n p => match p with
    | .group m => max n m
    | _ => n) 0

namespace Reading

def pattern (cs : List Char) (ignoresCase severalLines : Bool) :
    Reading (Option Pattern × Nat) := do
  if cs.isEmpty then return (none, 9)
  match Regex.parse ⟨(← get).isExtended, ignoresCase, true⟩ (spelled cs.length cs) with
  | .ok (r, groups) => return (some ⟨r, severalLines⟩, groups)
  | .error .bareClass => throw (octets RegexFault.bareClass.message, 4)
  | .error f => reject f.message

/-- The letters that follow the expression of an address. -/
def addressFlags : Nat → Bool → Bool → Reading (Bool × Bool)
  | 0, i, m => return (i, m)
  | limit + 1, i, m => do
    blanks
    match ← peek with
    | some 'I' =>
      skip
      addressFlags limit true m
    | some 'M' =>
      skip
      addressFlags limit i true
    | _ => return (i, m)

def address? : Reading (Option Address) := do
  let matching (sign : Char) : Reading (Option Address) := do
    match ← delimited sign true with
    | none => reject "unterminated address regex"
    | some cs =>
      let (i, m) ← addressFlags (← get).rest.length false false
      return some (.matching (← pattern cs i m).1)
  match ← peek with
  | some '/' =>
    skip
    matching '/'
  | some '\\' =>
    skip
    match ← take with
    | none => reject "unterminated address regex"
    | some sign => matching sign
  | some '$' =>
    skip
    return some .last
  | some '+' =>
    skip
    blanks
    return some (.ahead (← number))
  | some c => if c.isDigit then return some (.line (← number)) else return none
  | none => return none

def addresses : Reading (Option Address × Option Address) := do
  match ← address? with
  | none => return (none, none)
  | some first =>
    match first with
    | .ahead _ => reject "invalid usage of +N or ~N as first address"
    | _ => pure ()
    blanks
    let second ← if (← peek) = some ',' then
        skip
        blanks
        match ← address? with
        | none =>
          skip
          reject "unexpected \x60,'"
        | some a =>
          blanks
          pure (some a)
      else pure none
    match first, second with
    | .line 0, some (.matching _) => pure ()
    | .line 0, _ =>
      skip
      reject "invalid usage of line address 0"
    | _, _ => pure ()
    return (some first, second)

/-- Nothing else may follow an instruction on its line. -/
def finish : Reading Unit := do
  blanks
  match ← peek with
  | none | some '\x7d' | some '#' => return ()
  | some '\n' | some ';' => skip
  | some _ =>
    skip
    reject "extra characters after command"

def label : Reading (List Char) := do
  blanks
  takeWhile fun c => !isSpaceCharacter c && c != ';' && c != '\x7d'

/-- The name of a file, up to the end of the line. -/
def path : Reading (List Char) := do
  blanks
  let found ← takeWhile (· != '\n')
  skip
  if found.isEmpty then reject "missing filename in r/R/w/W commands"
  return Octets.narrow (← get).isWide found

def outputPath : Reading (List Char) := do
  let found ← path
  modify fun s => { s with outputs := s.outputs ++ [found] }
  return found

/-- A text up to the first line that does not end with a backslash. What is left is none if the text
may go on in another part. -/
def rawText : List Char → List Char × Option (List Char)
  | [] => ([], some [])
  | '\n' :: rest => ([], some rest)
  | ['\\'] => ([], some [])
  | '\\' :: c :: rest =>
    let (cs, left) := rawText rest
    ('\\' :: c :: cs, left)
  | c :: rest =>
    let (cs, left) := rawText rest
    (c :: cs, left)

/-- The text of an instruction, which begins here. -/
def text : Reading (List Char) := do
  let s ← get
  let (raw, left) := rawText s.rest
  set { s with rest := left.getD [] }
  return Octets.narrow s.isWide (plainText raw.length raw) ++ ['\n']

/-- An instruction with a text. The text may begin on the same line or on the next one. -/
def withText (make : List Char → Action) : Reading Action := do
  blanks
  match ← peek with
  | none => reject "expected \\ after \x60a', \x60c' or \x60i'"
  | some '\\' =>
    skip
    let bare := (← get).rest.dropWhile isBlankCharacter
    if bare.head? = some '\n' then modify fun s => { s with rest := bare.tail }
    if (← peek).isNone then
      modify fun s => { s with pending := some make }
      return make []
    return make (← text)
  | some _ => return make (← text)

def flags : Nat → Substitution → Bool → Bool → Reading (Substitution × Bool × Bool)
  | 0, s, i, m => return (s, i, m)
  | limit + 1, s, i, m => do
    match ← peek with
    | none | some '\x7d' | some '#' => return (s, i, m)
    | some c =>
      if c.isDigit then
        let n ← number
        if s.number ≠ 0 then reject "multiple number options to \x60s' command"
        if n = 0 then reject "number option to \x60s' command may not be zero"
        flags limit { s with number := n } i m
      else
        skip
        match c with
        | '\n' | ';' => return (s, i, m)
        | ' ' | '\t' => flags limit s i m
        | 'i' | 'I' => flags limit s true m
        | 'm' | 'M' => flags limit s i true
        | 'p' =>
          if s.prints then reject "multiple \x60p' options to \x60s' command"
          flags limit { s with prints := true } i m
        | 'g' =>
          if s.isGlobal then reject "multiple \x60g' options to \x60s' command"
          flags limit { s with isGlobal := true } i m
        | 'w' => return ({ s with output := some (← outputPath) }, i, m)
        | _ => reject "unknown option to \x60s'"

def substitution : Reading Action := do
  let unended {α : Type} : Reading α := reject "unterminated \x60s' command"
  match ← take with
  | none => unended
  | some sign =>
    match ← delimited sign true with
    | none => unended
    | some written =>
      match ← delimited sign false with
      | none => unended
      | some replacement =>
        let parts := partsOf replacement.length replacement
        let (s, i, m) ← flags ((← get).rest.length + 1) ⟨none, parts, 0, false, false, none⟩
          false false
        let (p, groups) ← pattern written i m
        if groups < lastGroup parts then
          refuse (octets "invalid reference \\" ++ digitsText (lastGroup parts)
            ++ octets " on \x60s' command's RHS")
        return .substitute { s with pattern := p, number := max s.number 1 }

/-- The characters of a text for which others stand. -/
def characters : Nat → List Char → List Char
  | 0, _ | _, [] => []
  | limit + 1, '\\' :: rest =>
    match produced? rest, rest with
    | some (c, others), _ => c :: characters limit others
    | none, c :: others => c :: characters limit others
    | none, [] => ['\\']
  | limit + 1, c :: rest => c :: characters limit rest

def transliteration : Reading Action := do
  let unended {α : Type} : Reading α := reject "unterminated \x60y' command"
  match ← take with
  | none => unended
  | some sign =>
    match ← delimited sign false with
    | none => unended
    | some old =>
      match ← delimited sign false with
      | none => unended
      | some new =>
        let from_ := characters old.length old
        let into := characters new.length new
        if from_.length ≠ into.length then
          reject "strings for \x60y' command are different lengths"
        finish
        return .transliterate (from_.zip into)

def argument? : Reading (Option Nat) := do
  blanks
  let digits ← takeWhile (·.isDigit)
  finish
  return if digits.isEmpty then none else some (decimal digits)

def plain? (c : Char) : Option Action :=
  match c with
  | '=' => some .number
  | 'd' => some .delete
  | 'D' => some .deleteLine
  | 'g' => some .fetch
  | 'G' => some .fetchMore
  | 'h' => some .hold
  | 'H' => some .holdMore
  | 'n' => some .next
  | 'N' => some .nextMore
  | 'p' => some .print
  | 'P' => some .printLine
  | 'x' => some .exchange
  | _ => none

def addJump (condition : Condition) : Reading Action := do
  let target ← label
  finish
  unless target.isEmpty do
    modify fun s => { s with jumps := (s.instructions.size, target) :: s.jumps }
  return .jump condition none

/-- The action that a letter stands for, with what belongs to it. -/
def action (c : Char) (isRange : Bool) : Reading Action := do
  let leaving (silently : Bool) : Reading Action := do
    if isRange then reject "command only uses one address"
    return .quit silently ((← argument?).getD 0)
  match c with
  | 'a' => withText .append
  | 'i' => withText .insert
  | 'c' => withText .change
  | 'b' => addJump .always
  | 't' => addJump .replaced
  | 'T' => addJump .notReplaced
  | 'q' => leaving false
  | 'Q' => leaving true
  | 'r' => return .readFile (← path)
  | 'w' => return .writeTo (← outputPath)
  | 's' => substitution
  | 'y' => transliteration
  | _ =>
    match plain? c with
    | some a =>
      finish
      return a
    | none => refuse (octets "unknown command: \x60" ++ [c, '\''])

def add (i : Instruction) : Reading Unit :=
  modify fun s => { s with instructions := s.instructions.push i }

/-- Where a block ends, once this is known. -/
def closeBlock (start : Nat) : Reading Unit :=
  modify fun s => { s with
    instructions := s.instructions.modify start fun i =>
      { i with action := .block s.instructions.size }
    blocks := s.blocks.tail }

def instruction : Reading Unit := do
  let isStart := (← get).rest.length == (← get).whole.length
  let (first, second) ← addresses
  let isInverted := (← peek) == some '!'
  if isInverted then
    skip
    blanks
    if (← peek) = some '!' then
      skip
      reject "multiple \x60!'s"
  match ← take with
  | none => reject "missing command"
  | some '#' =>
    if first.isSome then reject "comments don't accept any addresses"
    let comment ← takeWhile (· != '\n')
    skip
    let isHead : Bool := match (← get).origin with
      | .expression n => n == 1
      | .file _ => true
    if comment = ['n'] ∧ isStart ∧ isHead ∧ (← get).instructions.isEmpty then
      modify fun s => { s with isQuiet := true }
  | some ':' =>
    if first.isSome then reject ": doesn't want any addresses"
    let name ← label
    if name.isEmpty then reject "\":\" lacks a label"
    modify fun s => { s with labels := s.labels ++ [(name, s.instructions.size)] }
  | some '\x7b' =>
    modify fun s =>
      let line := (s.whole.take (s.whole.length - s.rest.length)).count '\n' + 1
      { s with blocks := (s.instructions.size, line, s.origin) :: s.blocks }
    add ⟨first, second, isInverted, .block 0⟩
  | some '\x7d' =>
    match (← get).blocks with
    | [] => reject "unexpected \x60\x7d'"
    | (start, _) :: _ =>
      if first.isSome then reject "\x7d doesn't want any addresses"
      finish
      closeBlock start
  | some c =>
    let a ← action c second.isSome
    add ⟨first, second, isInverted, a⟩

/-- All instructions of one part of a script. -/
def instructions : Nat → Reading Unit
  | 0 => return ()
  | limit + 1 => do
    skipWhile fun c => c == ';' || isSpaceCharacter c
    if (← peek).isNone then return ()
    instruction
    instructions limit

/-- The text that the part before this one has left open. -/
def resume : Reading Unit := do
  if let some make := (← get).pending then
    let found ← text
    modify fun s => { s with
      pending := none
      instructions := s.instructions.modify (s.instructions.size - 1) fun i =>
        { i with action := make found } }

end Reading

structure Script where
  instructions : Array Instruction
  isQuiet : Bool
  outputs : List (List Char)

def resolve (s : Reader) : List (Nat × List Char) → Except Refusal (Array Instruction)
  | [] => .ok s.instructions
  | (place, name) :: rest => do
    let found ← resolve s rest
    match List.lookup name s.labels with
    | none => .error (octets "can't find label for jump to \x60" ++ Octets.narrow s.isWide name
        ++ ['\''], 4)
    | some target =>
      return found.modify place fun i => match i.action with
        | .jump condition _ => { i with action := .jump condition (some target) }
        | _ => i

namespace Script

def parse (isWide isExtended : Bool) (parts : List (Origin × List Char)) :
    Except Refusal Script := do
  let start : Reader :=
    ⟨.expression 0, [], [], isWide, isExtended, false, #[], [], [], [], none, []⟩
  let s ← parts.foldlM (fun (s : Reader) (origin, cs) => do
    let cs := Octets.widen isWide cs
    let (_, s) ← (do Reading.resume; Reading.instructions (cs.length + 1) : Reading Unit).run
      { s with origin := origin, whole := cs, rest := cs }
    return s) start
  match s.blocks with
  | (_, line, origin) :: _ =>
    throw (Reading.place origin (match origin with
      | .expression _ => []
      | .file _ => List.replicate (line - 1) '\n') false ++ octets "unmatched \x60\x7b'", 1)
  | [] => return ⟨← resolve s s.jumps, s.isQuiet, s.outputs⟩

end Script

end TestBench.Tools.Sed
