import TestBench.Shell.Pattern

/-!
Splitting texts into fields. Only what comes from values is split. Each value is a
stretch of its own: separators that end one do not join those that begin the next.
-/
namespace TestBench.Shell

inductive Bit where
  /-- A quoted character. -/
  | kept (c : Char)
  /-- A character of the script. -/
  | active (c : Char)
  /-- A character of a value. -/
  | found (c : Char)
  /-- There is a field here, even an empty one. -/
  | mark
  /-- One of several values ends here. -/
  | cut
  /-- A stretch begins here, which may be split only between values. -/
  | edge (onlyBetween : Bool)
  deriving DecidableEq, Repr

namespace Bit

def ofValue (quoted : Bool) (cs : List Char) : List Bit :=
  if quoted then cs.map .kept else .edge false :: cs.map .found

def ofValues (quoted : Bool) (values : List (List Char)) : List Bit :=
  if values.isEmpty then []
  else .edge quoted :: [Bit.cut].intercalate
    (values.map fun cs => cs.map fun c => if quoted then .kept c else .found c)

/-- The characters of bits in one text, and which of them are quoted. What stands between several
values is given. -/
def marked (joint : List Char) (bits : List Bit) : List Marked :=
  bits.flatMap fun
    | .kept c => [(c, true)]
    | .active c | .found c => [(c, false)]
    | .mark | .edge _ => []
    | .cut => joint.map (·, true)

def text (joint : List Char) (bits : List Bit) : List Char := (marked joint bits).map (·.1)

/-- Treats characters of the script like those of a value. Each run of them is a stretch. -/
def loosened (isInside : Bool) : List Bit → List Bit
  | [] => []
  | .active c :: rest =>
    (if isInside then [] else [.edge false]) ++ .found c :: loosened true rest
  | b :: rest => b :: loosened false rest

end Bit

/-- Texts that are being split. What may become a field is kept with its last part first, where
nothing stands for quotation marks. -/
structure Splitter where
  complete : List (List (Option Marked))
  current : List (Option Marked)
  /-- Whether blanks have ended the last field, so that one separator more belongs to its end. -/
  isAfterBlanks : Bool
  /-- Whether this stretch is split only between values. -/
  onlyBetween : Bool
  wasOnlyBetween : Bool
  /-- How many fields there may still be, if there is a limit. -/
  left : Option Nat
  /-- How much of the last field stays. -/
  kept : Option Nat

namespace Splitter

def start (limit : Option Nat) : Splitter := ⟨[], [], false, false, false, limit, none⟩

def isBlank (c : Char) : Bool := c == ' ' || c == '\t' || c == '\n'

def add (s : Splitter) (item : Option Marked) : Splitter := { s with current := item :: s.current }

def finish (s : Splitter) : Splitter :=
  { s with complete := s.current :: s.complete, current := [] }

/-- Takes what may be a separator and may be a blank. -/
def take (s : Splitter) (item : Marked) (isSeparator isBlank : Bool) : Splitter :=
  if s.left = some 0 then
    if isBlank then { s.add item with kept := s.kept.or (some s.current.length) }
    else
      let kept := if isSeparator && s.isAfterBlanks then s.kept else none
      { s.add item with kept := kept, isAfterBlanks := false }
  else if s.isAfterBlanks then
    if isSeparator then { s with isAfterBlanks := isBlank }
    else { s.add item with isAfterBlanks := false }
  else if isSeparator then
    let isGap := isBlank && !(s.wasOnlyBetween || s.onlyBetween)
    if s.current.isEmpty && isGap then s
    else match s.left with
      | some (n + 1) =>
        if n = 0 then
          { s.add item with
            left := some 0, kept := some s.current.length, isAfterBlanks := isGap }
        else { s.finish with left := some n, isAfterBlanks := isGap }
      | _ => { s.finish with isAfterBlanks := isGap }
  else s.add item

def addBit (separators : List Char) (s : Splitter) : Bit → Splitter
  | .kept c => s.add (some (c, true))
  | .active c => s.add (some (c, false))
  | .mark => s.add none
  | .found c =>
    let isSeparator := !s.onlyBetween && separators.contains c
    s.take (c, false) isSeparator (isSeparator && isBlank c)
  | .cut => s.take ('\x00', false) true true
  | .edge onlyBetween =>
    { s with
      wasOnlyBetween := s.onlyBetween, onlyBetween := onlyBetween, isAfterBlanks := false }

/-- The fields at the end. The last one counts if there is something in it. -/
def fields (s : Splitter) : List (List Marked) :=
  let last := match s.onlyBetween, s.kept with
    | false, some n => s.current.drop (s.current.length - n)
    | _, _ => s.current
  let all := if s.onlyBetween || !last.isEmpty then last :: s.complete else s.complete
  (all.map fun items => items.reverse.filterMap id).reverse

end Splitter

def fieldsOfBits (separators : List Char) (bits : List Bit) : List (List Marked) :=
  (bits.foldl (Splitter.addBit separators) (.start none)).fields

/-- The fields of a text that has been read, of which the last one takes what is left. -/
def splitLine (separators : List Char) (limit : Nat) (cs : List Marked) : List (List Char) :=
  let bits := .edge false :: cs.flatMap fun (c, isQuoted) =>
    if isQuoted then [.kept c, .edge false] else [.found c]
  ((bits.foldl (Splitter.addBit separators) (.start (some limit))).fields).map (·.map (·.1))

end TestBench.Shell
