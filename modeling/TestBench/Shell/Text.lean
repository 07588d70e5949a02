import TestBench.Shell.Arithmetic
import TestBench.Shell.Session

/-!
Texts with escapes and places for arguments, as the commands that print them
understand them. Characters are single bytes here, so an escape stands for one
of them, and what is printed need not be text.
-/
namespace TestBench.Shell

/-- What a character after a backslash stands for. -/
def escaped? (c : Char) : Option Nat :=
  match c with
  | 'a' => some 7
  | 'b' => some 8
  | 't' => some 9
  | 'n' => some 10
  | 'v' => some 11
  | 'f' => some 12
  | 'r' => some 13
  | '\\' => some 92
  | _ => none

def octalDigit? (c : Char) : Option Nat :=
  if '0' ≤ c ∧ c ≤ '7' then some (c.toNat - '0'.toNat) else none

inductive EscapeMode where
  | none
  | backslash
  /-- So many more octal digits belong to a byte. -/
  | octal (value more : Nat)
  | stopped

structure Unescaping where
  text : List Char
  mode : EscapeMode

namespace Unescaping

def add (u : Unescaping) (cs : List Char) : Unescaping := ⟨u.text ++ cs, .none⟩

def addByte (u : Unescaping) (n : Nat) : Unescaping := u.add [Char.ofNat (n % 256)]

def plain (u : Unescaping) (c : Char) : Unescaping :=
  if c = '\\' then { u with mode := .backslash } else u.add [c]

/-- With `longZero`, three more digits may follow a zero, and the text may end early. -/
def step (longZero : Bool) (u : Unescaping) (c : Char) : Unescaping :=
  match u.mode with
  | .none => u.plain c
  | .stopped => u
  | .octal value more =>
    match octalDigit? c, more with
    | some digit, 1 => u.addByte (8 * value + digit)
    | some digit, more + 2 => { u with mode := .octal (8 * value + digit) (more + 1) }
    | _, _ => (u.addByte value).plain c
  | .backslash =>
    match escaped? c, octalDigit? c with
    | some code, _ => u.addByte code
    | none, some digit =>
      { u with mode := .octal digit (if longZero && digit == 0 then 3 else 2) }
    | none, none =>
      if longZero && c == 'c' then { u with mode := .stopped }
      else u.add ['\\', c]

end Unescaping

/-- A text without its escapes, and whether it ended early. -/
def unescape (longZero : Bool) (cs : List Char) : List Char × Bool :=
  let last := cs.foldl (Unescaping.step longZero) ⟨[], .none⟩
  match last.mode with
  | .none => (last.text, false)
  | .stopped => (last.text, true)
  | .backslash => (last.text ++ ['\\'], false)
  | .octal value _ => ((last.addByte value).text, false)

/-- A size in a format. It may be an argument of its own. -/
inductive Amount where
  | unsaid
  | given (n : Nat)
  | argument
  deriving DecidableEq, Repr

structure Slot where
  flags : List Char
  width : Amount
  precision : Amount
  kind : Char
  deriving DecidableEq, Repr

inductive FormatPart where
  | text (cs : List Char)
  | argument (slot : Slot)
  /-- A place whose kind is missing. -/
  | broken
  deriving DecidableEq, Repr

def FormatPart.isArgument : FormatPart → Bool
  | .argument _ => true
  | _ => false

def amount (cs : List Char) : Amount × List Char :=
  match cs with
  | '*' :: rest => (.argument, rest)
  | _ =>
    let digits := cs.takeWhile (·.isDigit)
    (if digits.isEmpty then .unsaid else .given (decimal digits), cs.drop digits.length)

/-- What stands behind a percent sign, and the rest. -/
def slot? (cs : List Char) : Option (Slot × List Char) :=
  let flags := cs.takeWhile fun c => ['#', '-', '+', ' ', '0'].contains c
  let (width, rest) := amount (cs.drop flags.length)
  let (precision, rest) := match rest with
    | '.' :: others =>
      let (found, others) := amount others
      (if found = .unsaid then .given 0 else found, others)
    | _ => (.unsaid, rest)
  match rest with
  | kind :: others => some (⟨flags, width, precision, kind⟩, others)
  | [] => none

/-- The parts of a format between its places for arguments. -/
def formatParts : Nat → List Char → List FormatPart
  | 0, _ | _, [] => []
  | limit + 1, '%' :: '%' :: rest => joinText ['%'] (formatParts limit rest)
  | limit + 1, '%' :: rest =>
    match slot? rest with
    | some (slot, others) => .argument slot :: formatParts limit others
    | none => [.broken]
  | limit + 1, '\\' :: c :: rest => joinText ['\\', c] (formatParts limit rest)
  | limit + 1, c :: rest => joinText [c] (formatParts limit rest)
where
  joinText (cs : List Char) : List FormatPart → List FormatPart
    | .text more :: parts => .text (cs ++ more) :: parts
    | parts => .text cs :: parts

/-- A format that is being filled: the arguments that are left, what has been written, and what
was wrong. -/
structure Filling where
  arguments : List (List Char)
  text : List Char
  faults : List (List Char)
  stopped : Bool
  /-- What is wrong with the format itself. -/
  error : Option (List Char)

/-- The number that an argument begins with, and whether anything follows it. -/
def leadingNumber (cs : List Char) : Int × Option String :=
  match cs with
  | '\'' :: c :: _ | '"' :: c :: _ => (c.toNat, none)
  | _ =>
    match Arithmetic.integer? cs with
    | some n => (n, none)
    | none =>
      let sizes := (List.range cs.length).filter fun n =>
        0 < n && (Arithmetic.integer? (cs.take n)).isSome && (cs.take n).any (·.isDigit)
      match sizes.getLast? with
      | some n => ((Arithmetic.integer? (cs.take n)).getD 0, some "not completely converted")
      | none => (0, some "expected numeric value")

namespace Filling

def next (f : Filling) : Option (List Char) × Filling :=
  (f.arguments.head?, { f with arguments := f.arguments.tail })

def number (f : Filling) : Int × Filling :=
  match f.next with
  | (none, f) => (0, f)
  | (some cs, f) =>
    match leadingNumber cs with
    | (n, none) => (n, f)
    | (n, some fault) => (n, { f with faults := f.faults ++ [cs ++ ": ".toList ++ fault.toList] })

def size (f : Filling) : Amount → Option Int × Filling
  | .unsaid => (none, f)
  | .given n => (some n, f)
  | .argument =>
    let (n, f) := f.number
    (some n, f)

end Filling

def spaces (n : Nat) : List Char := List.replicate n ' '

/-- A text in a field of a width. -/
def padded (left : Bool) (width : Nat) (cs : List Char) : List Char :=
  if left then cs ++ spaces (width - cs.length) else spaces (width - cs.length) ++ cs

/-- The digits of a number, at least so many. -/
def digitsOf (base : Nat) (least : Nat) (n : Nat) : List Char :=
  let ds := Nat.toDigits base n
  let shown := if least = 0 ∧ n = 0 then [] else ds
  List.replicate (least - shown.length) '0' ++ shown

/-- A number as a slot wants it, with its sign or the mark of its base. -/
def shownNumber (slot : Slot) (width : Nat) (precision : Option Nat) (n : Int) : List Char :=
  let left := slot.flags.contains '-'
  let least := precision.getD 1
  let unsigned := (n % (Arithmetic.modulus : Int)).toNat
  let marked := slot.flags.contains '#' && n != 0
  let (mark, digits) := match slot.kind with
    | 'o' => (if marked then ['0'] else [], digitsOf 8 least unsigned)
    | 'u' => ([], digitsOf 10 least unsigned)
    | 'x' => (if marked then ['0', 'x'] else [], digitsOf 16 least unsigned)
    | 'X' => (if marked then ['0', 'X'] else [], (digitsOf 16 least unsigned).map Char.toUpper)
    | _ =>
      (if n < 0 then ['-'] else if slot.flags.contains '+' then ['+']
        else if slot.flags.contains ' ' then [' '] else [], digitsOf 10 least n.natAbs)
  let zeros :=
    if slot.flags.contains '0' && !left && precision.isNone then
      List.replicate (width - mark.length - digits.length) '0'
    else []
  padded left width (mark ++ zeros ++ digits)

namespace Filling

def write (f : Filling) (cs : List Char) : Filling := { f with text := f.text ++ cs }

def fill (f : Filling) : FormatPart → Filling
  | .text cs => if f.stopped then f else f.write (unescape false cs).1
  | .broken =>
    if f.stopped then f
    else { f with stopped := true, error := some "missing format character".toList }
  | .argument slot =>
    if f.stopped then f
    else
      let (width, f) := f.size slot.width
      let (precision, f) := f.size slot.precision
      let slot := if width.any (· < 0) then { slot with flags := '-' :: slot.flags } else slot
      let width := (width.map Int.natAbs).getD 0
      let precision := (precision.filter (0 ≤ ·)).map Int.toNat
      let left := slot.flags.contains '-'
      let cut (cs : List Char) : List Char := match precision with
        | some n => cs.take n
        | none => cs
      match slot.kind with
      | 's' =>
        let (cs, f) := f.next
        f.write (padded left width (cut (cs.getD [])))
      | 'c' =>
        let (cs, f) := f.next
        f.write (padded left width ((cs.getD []).take 1))
      | 'b' =>
        let (cs, f) := f.next
        let (shown, stopped) := unescape true (cs.getD [])
        { f.write (padded left width (cut shown)) with stopped := stopped }
      | kind =>
        if ['d', 'i', 'o', 'u', 'x', 'X'].contains kind then
          let (n, f) := f.number
          f.write (shownNumber slot width precision n)
        else
          { f with stopped := true, error := some ('%' :: kind :: ": invalid directive".toList) }

/-- Passes over a format until no argument is left. -/
def fillAll (parts : List FormatPart) : Nat → Filling → Filling
  | 0, f => f
  | limit + 1, f =>
    let f := parts.foldl fill f
    if f.stopped ∨ f.arguments.isEmpty ∨ ¬ parts.any (·.isArgument) then f
    else fillAll parts limit f

end Filling

def format (pattern : List Char) (arguments : List (List Char)) : Filling :=
  Filling.fillAll (formatParts (pattern.length + 1) pattern) (arguments.length + 1)
    ⟨arguments, [], [], false, none⟩

end TestBench.Shell
