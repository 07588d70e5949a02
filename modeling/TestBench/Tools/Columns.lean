import TestBench.Tools.Text

/-!
Programs that look at places within lines: fields between separators, ranges of
characters, and columns that blanks and tabs lead to.
-/
namespace TestBench.Tools

open Shell

namespace Cut

/-- The places from one to another, or to the end. -/
structure Range where
  low : Nat
  high : Option Nat
  deriving DecidableEq, Repr

def Range.has (r : Range) (n : Nat) : Bool := r.low ≤ n && r.high.all (n ≤ ·)

/-- What is said about lists of fields, and about lists of other places. -/
structure Wording where
  invalid : String
  fromOne : String

def wordingFor (fields : Bool) : Wording :=
  if fields then ⟨"invalid field value ", "fields are numbered from 1"⟩
  else ⟨"invalid byte or character position ",
    "byte/character positions are numbered from 1"⟩

def range (w : Wording) (cite : List Char → List Char) (cs : List Char) :
    Except (List Char) Range := do
  let low := cs.takeWhile (· != '-')
  let number (cs : List Char) : Except (List Char) Nat :=
    match natural? cs with
    | some n => .ok n
    | none => .error (octets w.invalid ++ cite cs)
  if low = cs then
    let n ← number cs
    if n = 0 then throw (octets w.fromOne)
    return ⟨n, some n⟩
  let high := cs.drop (low.length + 1)
  if low.isEmpty && high.isEmpty then throw (octets "invalid range with no endpoint: -")
  let a ← if low.isEmpty then pure 1 else number low
  if a = 0 then throw (octets w.fromOne)
  if high.isEmpty then return ⟨a, none⟩
  let b ← number high
  if b < a then throw (octets "invalid decreasing range")
  return ⟨a, some b⟩

/-- Ranges in order, those that overlap in one. -/
def merged : List Range → List Range
  | a :: b :: rest =>
    match a.high with
    | none => [a]
    | some high =>
      if b.low ≤ high then merged (⟨a.low, b.high.map (max high)⟩ :: rest)
      else a :: merged (b :: rest)
  | rs => rs
termination_by rs => rs.length

def ranges (w : Wording) (cite : List Char → List Char) (cs : List Char) :
    Except (List Char) (List Range) := do
  let pieces := (Path.splitAt ',' (cs.map fun c => if isBlankCharacter c then ',' else c))
  let found ← pieces.mapM (range w cite)
  return merged (found.mergeSort fun a b => a.low ≤ b.low)

/-- What is left out when a list is turned around. -/
def complement : Nat → List Range → List Range
  | start, [] => [⟨start, none⟩]
  | start, r :: rest =>
    let before := if start < r.low then [⟨start, some (r.low - 1)⟩] else []
    match r.high with
    | none => before
    | some high => before ++ complement (high + 1) rest

def pick {α : Type} (rs : List Range) (xs : List α) : List (List α) :=
  (rs.map fun r => ((xs.zipIdx 1).filter fun (_, n) => r.has n).map (·.1)).filter (!·.isEmpty)

def cutFields (delimiter : Char) (joint : List Char) (onlyDelimited : Bool) (rs : List Range)
    (line : List Char) : Option (List Char) :=
  if line.contains delimiter then
    some (joint.intercalate (pick rs (Path.splitAt delimiter line)).flatten)
  else if onlyDelimited then none else some line

def run (c : Call) : Act Nat := do
  let lists := c.options.filter fun (o, _) => ["b", "c", "f"].contains o
  let isFields := c.has "f"
  match lists with
  | [] => c.misused 1 (octets "you must specify a list of bytes, characters, or fields")
  | _ :: _ :: _ => c.misused 1 (octets "only one list may be specified")
  | [(_, text)] =>
    let delimiter := (c.value? "d").getD ['\t']
    if 1 < delimiter.length then
      return ← c.misused 1 (octets "the delimiter must be a single character")
    if !isFields && c.has "d" then
      return ← c.misused 1
        (octets "an input delimiter may be specified only when operating on fields")
    if !isFields && c.has "s" then
      return ← c.misused 1 (octets ("suppressing non-delimited lines makes sense\n"
        ++ "\tonly when operating on fields"))
    match ranges (wordingFor isFields) c.cited text with
    | .error message => c.misused 1 message
    | .ok found =>
      let rs := if c.has "complement" then complement 1 found else found
      let d := delimiter.headD '\x00'
      let joint := c.value? "output-delimiter"
      let ending := c.ending
      let complete ← eachStream c.inputs c.about fun _ text => do
        (recordsOf ending text).forM fun record => do
          let line := if record.getLast? = some ending then record.dropLast else record
          let shown :=
            if isFields then cutFields d (joint.getD [d]) (c.has "s") rs line
            else some ((joint.getD []).intercalate (pick rs line))
          if let some cs := shown then print (cs ++ [ending])
      return ofTruth complete

def tool : Tool :=
  .of "b:c:d:f:nsz" [valued "bytes" "b", valued "characters" "c", valued "fields" "f",
    valued "delimiter" "d", flag "only-delimited" "s", flag "complement" "complement",
    valued "output-delimiter" "output-delimiter", flag "zero-terminated" "z"] run

end Cut

namespace Uniq

/-- How lines are compared: without some fields and characters at their start, up to some length,
and perhaps without regard to case. -/
structure Style where
  fields : Nat
  characters : Nat
  width : Option Nat
  ignoresCase : Bool

def skipField (cs : List Char) : List Char :=
  (cs.dropWhile isBlankCharacter).dropWhile fun c => !isBlankCharacter c

def keyOf (s : Style) (cs : List Char) : List Char :=
  let rest := ((List.range s.fields).foldl (fun cs _ => skipField cs) cs).drop s.characters
  let rest := match s.width with
    | some n => rest.take n
    | none => rest
  if s.ignoresCase then rest.map Char.toUpper else rest

def groups (s : Style) (ls : List (List Char)) : List (List (List Char)) :=
  ls.foldr (fun l found => match found with
    | (m :: ms) :: rest =>
      if keyOf s l = keyOf s m then (l :: m :: ms) :: rest else [l] :: found
    | _ => [l] :: found) []

def run (c : Call) : Act Nat := do
  let number (option : String) : Option Nat := (c.value? option).bind natural?
  let style : Style := ⟨(number "f").getD 0, (number "s").getD 0, number "w", c.has "i"⟩
  let strip (record : List Char) : List Char :=
    if record.getLast? = some c.ending then record.dropLast else record
  let wordings := [("f", "invalid number of fields to skip"),
    ("s", "invalid number of bytes to skip"), ("w", "invalid number of bytes to compare")]
  let bad := wordings.filterMap fun (option, message) =>
    match c.value? option with
    | some cs => if (natural? cs).isNone then some (octets message ++ octets ": " ++ c.cited cs)
      else none
    | none => none
  if let some message := bad.head? then return ← c.misused 1 message
  let path := c.operands.headD standardInput
  match ← readWhole path with
  | .error .isDirectory =>
    c.failed "error reading" path .isDirectory
    return 1
  | .error e =>
    c.about path e
    return 1
  | .ok text =>
    let found := (groups style ((recordsOf c.ending text).map strip)).filter fun g =>
      (!(c.has "d" || c.has "D") || 1 < g.length) && (!c.has "u" || g.length == 1)
    let shown := found.flatMap fun g =>
      if c.has "D" then g
      else
        let line := g.headD []
        [if c.has "c" then rightAligned 7 (digitsText g.length) ++ ' ' :: line else line]
    let result := shown.flatMap (· ++ [c.ending])
    match c.operands[1]? with
    | none => print result
    | some target =>
      match (← get).view.write (pathOf target) (Octets.toBytes result) with
      | .ok files => modify (·.update files)
      | .error e =>
        c.about target e
        return 1
    return 0

def tool : Tool :=
  .of "cdDf:is:uw:z" [flag "count" "c", flag "repeated" "d", flag "all-repeated" "D",
    valued "skip-fields" "f", flag "ignore-case" "i", valued "skip-chars" "s", flag "unique" "u",
    valued "check-chars" "w", flag "zero-terminated" "z"] (atMost 2 run)

end Uniq

end TestBench.Tools
