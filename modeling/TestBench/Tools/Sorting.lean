import TestBench.Tools.Columns

/-!
Sorting lines. Lines are compared by keys, which are parts of them, one after
the other, and at last as a whole; a key says how its parts are compared.
-/
namespace TestBench.Tools.Sort

open Shell

inductive Comparing where
  | bytes
  | numbers
  deriving DecidableEq, Repr

structure Manner where
  comparing : Comparing
  onlyWords : Bool
  foldsCase : Bool
  onlyPrinting : Bool
  isReversed : Bool
  skipsStartBlanks : Bool
  skipsEndBlanks : Bool
  deriving DecidableEq, Repr

def Manner.plain : Manner := ⟨.bytes, false, false, false, false, false, false⟩

/-- Where a key ends: within a field, at its end if no character is given, or with the line. -/
structure Stop where
  field : Nat
  character : Nat
  deriving DecidableEq, Repr

structure Key where
  field : Nat
  character : Nat
  stop : Option Stop
  manner : Manner
  deriving DecidableEq, Repr

def Manner.add (o : Manner) (atStart atEnd : Bool) (c : Char) : Option Manner :=
  match c with
  | 'b' => some
      { o with
        skipsStartBlanks := o.skipsStartBlanks || atStart
        skipsEndBlanks := o.skipsEndBlanks || atEnd }
  | 'd' => some { o with onlyWords := true }
  | 'f' => some { o with foldsCase := true }
  | 'i' => some { o with onlyPrinting := true }
  | 'n' => some { o with comparing := .numbers }
  | 'r' => some { o with isReversed := true }
  | _ => none

/-- The letters at the start of a text that say how to compare, and the rest. -/
def addLetters (atStart atEnd : Bool) : Manner → List Char → Manner × List Char
  | o, [] => (o, [])
  | o, c :: rest => match o.add atStart atEnd c with
    | some o => addLetters atStart atEnd o rest
    | none => (o, c :: rest)

/-- Why a text is no key: what is wrong, and where it is cited from. -/
structure KeyFault where
  reason : String
  text : List Char
  /-- Whether a number is what is wrong. -/
  isCount : Bool

def count (reason : String) (cs : List Char) : Except KeyFault (Nat × List Char) :=
  let digits := cs.takeWhile (·.isDigit)
  if digits.isEmpty then .error ⟨reason, cs, true⟩
  else .ok (decimal digits, cs.drop digits.length)

def key (spec : List Char) : Except KeyFault Key := do
  let bad (reason : String) : KeyFault := ⟨reason, spec, false⟩
  let (field, rest) ← count "invalid number at field start" spec
  if field = 0 then throw (bad "field number is zero")
  let (character, rest) ← match rest with
    | '.' :: others => do
      let (n, others) ← count "invalid number after '.'" others
      if n = 0 then throw (bad "character offset is zero")
      pure (n, others)
    | _ => pure (1, rest)
  let (o, rest) := addLetters true false .plain rest
  match rest with
  | [] => return ⟨field, character, none, o⟩
  | ',' :: others =>
    let (last, rest) ← count "invalid number after ','" others
    if last = 0 then throw (bad "field number is zero")
    let (offset, rest) ← match rest with
      | '.' :: others => count "invalid number after '.'" others
      | _ => pure (0, rest)
    let (o, rest) := addLetters false true o rest
    if rest.isEmpty then return ⟨field, character, some ⟨last, offset⟩, o⟩
    else throw (bad "stray character in field spec")
  | _ => throw (bad "stray character in field spec")

def skipBlanks (cs : List Char) : List Char := cs.dropWhile isBlankCharacter

def skipField (cs : List Char) : List Char :=
  (skipBlanks cs).dropWhile fun c => !isBlankCharacter c

/-- What follows the first fields of a line. -/
def behindFields (tab : Option Char) : Nat → List Char → List Char
  | 0, cs => cs
  | n + 1, cs => match tab with
    | some t => behindFields tab n ((cs.dropWhile (· != t)).drop 1)
    | none => behindFields tab n (skipField cs)

/-- How much of a line there is before the end of a key. -/
def stopAt (tab : Option Char) (o : Manner) (s : Stop) (line : List Char) : Nat :=
  let before := behindFields tab (s.field - 1) line
  if s.character = 0 then
    let after := match tab with
      | some t => before.dropWhile (· != t)
      | none => skipField before
    line.length - after.length
  else
    let start := if o.skipsEndBlanks then skipBlanks before else before
    min line.length (line.length - start.length + s.character)

def Key.part (k : Key) (tab : Option Char) (line : List Char) : List Char :=
  let rest := behindFields tab (k.field - 1) line
  let rest := if k.manner.skipsStartBlanks then skipBlanks rest else rest
  let start := min line.length (line.length - rest.length + (k.character - 1))
  let stop := match k.stop with
    | some s => stopAt tab k.manner s line
    | none => line.length
  (line.drop start).take (stop - start)

def considered (o : Manner) (cs : List Char) : List Char :=
  let cs := if o.onlyWords then cs.filter fun c => c.isAlphanum || isBlankCharacter c else cs
  let cs := if o.onlyPrinting then cs.filter fun c => 32 ≤ c.toNat && c.toNat < 127 else cs
  if o.foldsCase then cs.map Char.toUpper else cs

/-- A number as its sign, its digits before the point and those behind it. -/
structure Digits where
  isNegative : Bool
  whole : List Char
  part : List Char

def digitsOf (cs : List Char) : Digits :=
  let cs := skipBlanks cs
  let (isNegative, cs) := match cs with
    | '-' :: rest => (true, rest)
    | _ => (false, cs)
  let whole := cs.takeWhile (·.isDigit)
  let part := match cs.drop whole.length with
    | '.' :: rest => rest.takeWhile (·.isDigit)
    | _ => []
  ⟨isNegative, whole.dropWhile (· == '0'), Path.dropTrailing (· == '0') part⟩

def Digits.isZero (d : Digits) : Bool := d.whole.isEmpty && d.part.isEmpty

def compareTexts (a b : List Char) : Ordering := compare (String.ofList a) (String.ofList b)

/-- Digits before the point: longer ones are greater. -/
def compareWhole (a b : List Char) : Ordering :=
  (compare a.length b.length).then (compareTexts a b)

def compareDigits (a b : Digits) : Ordering :=
  let size := (compareWhole a.whole b.whole).then (compareTexts a.part b.part)
  match a.isNegative && !a.isZero, b.isNegative && !b.isZero with
  | true, true => size.swap
  | true, false => .lt
  | false, true => .gt
  | false, false => size

def compareNumbers (a b : List Char) : Ordering := compareDigits (digitsOf a) (digitsOf b)

def Comparing.compare (by_ : Comparing) (a b : List Char) : Ordering :=
  match by_ with
  | .bytes => compareTexts a b
  | .numbers => compareNumbers a b

/-- A line with the parts that it is compared by. -/
structure Row where
  line : List Char
  parts : List (List Char)

structure Plan where
  keys : List Key
  tab : Option Char
  isReversed : Bool
  isStable : Bool
  isUnique : Bool

def Plan.row (p : Plan) (line : List Char) : Row :=
  ⟨line, p.keys.map fun k => considered k.manner (k.part p.tab line)⟩

def compareParts : List Key → List (List Char) → List (List Char) → Ordering
  | k :: ks, a :: as, b :: bs =>
    let found := k.manner.comparing.compare a b
    (if k.manner.isReversed then found.swap else found).then (compareParts ks as bs)
  | _, _, _ => .eq

def Plan.compare (p : Plan) (a b : Row) : Ordering :=
  let found := compareParts p.keys a.parts b.parts
  if !p.keys.isEmpty && (p.isStable || p.isUnique) then found
  else
    let whole := compareTexts a.line b.line
    found.then (if p.isReversed then whole.swap else whole)

def Plan.sorted (p : Plan) (lines : List (List Char)) : List Row :=
  (lines.map p.row).mergeSort fun a b => p.compare a b != .gt

/-- Leaves out rows that count as equal to the one before. -/
def Plan.distinct (p : Plan) : List Row → List Row
  | a :: b :: rest =>
    if p.compare a b = .eq then p.distinct (a :: rest) else a :: p.distinct (b :: rest)
  | rows => rows
termination_by rows => rows.length

/-- The number of the first line that stands behind one that should follow it. -/
def Plan.disorder? (p : Plan) : Nat → List Row → Option (Nat × List Char)
  | n, a :: b :: rest =>
    let found := p.compare a b
    if found = .gt ∨ (p.isUnique ∧ found = .eq) then some (n + 1, b.line)
    else p.disorder? (n + 1) (b :: rest)
  | _, _ => none

def globalLetters : List Char := "bdfinr".toList

def globalManner (c : Call) : Manner :=
  (c.options.flatMap fun (o, _) =>
    o.toList.filter fun l => o.length == 1 && globalLetters.contains l).foldl
      (fun o l => (o.add true true l).getD o) .plain

/-- A key without letters of its own is compared as the options say. -/
def inherited (m : Manner) (k : Key) : Key :=
  if k.manner = .plain then { k with manner := m } else k

def separator (c : Call) : Except (List Char) (Option Char) :=
  match c.value? "t" with
  | none => .ok none
  | some ['\\', '0'] => .ok (some '\x00')
  | some [t] => .ok (some t)
  | some [] => .error (octets "empty tab")
  | some cs => .error (octets "multi-character tab " ++ c.cited cs)

def faultMessage (c : Call) (f : KeyFault) : List Char :=
  if f.isCount then octets f.reason ++ octets ": invalid count at start of " ++ c.cited f.text
  else octets f.reason ++ octets ": invalid field specification " ++ c.cited f.text

def plan (c : Call) : Except (List Char) Plan := do
  let m := globalManner c
  let tab ← separator c
  let keys ← (c.values "k").mapM fun spec => (key spec).mapError (faultMessage c)
  let whole : List Key := if m = .plain ∨ (m = { Manner.plain with isReversed := true }) then []
    else [⟨1, 1, none, m⟩]
  let keys := if keys.isEmpty then whole else keys.map (inherited m)
  return ⟨keys, tab, m.isReversed, c.has "s", c.has "u"⟩

def check (p : Plan) (path : List Char) (lines : List (List Char)) (c : Call) : Act Nat := do
  match p.disorder? 1 (lines.map p.row) with
  | none => return 0
  | some (n, line) =>
    if c.last? ["c", "C"] = some "c" then
      c.complain (path ++ octets (":" ++ toString n ++ ": disorder: ") ++ line)
    return 1

def run (c : Call) : Act Nat := do
  match plan c with
  | .error message =>
    c.complain message
    return 2
  | .ok p =>
    let strip (record : List Char) : List Char :=
      if record.getLast? = some c.ending then record.dropLast else record
    let texts ← c.inputs.mapM fun path => do
      match ← readWhole path with
      | .ok text => return .ok ((recordsOf c.ending text).map strip)
      | .error e => return Except.error (path, e)
    match texts.findSome? fun
        | .error f => some f
        | .ok _ => none with
    | some (path, e) =>
      let before := if e = .isDirectory then "read failed: " else "cannot read: "
      c.complain (octets before ++ Call.shown path ++ octets (": " ++ e.reason))
      return 2
    | none =>
      let lines := (texts.filterMap Except.toOption).flatten
      if c.has "c" || c.has "C" then return ← check p (c.inputs.headD standardInput) lines c
      let rows := p.sorted lines
      let result := ((if p.isUnique then p.distinct rows else rows).map (·.line)).flatMap
        (· ++ [c.ending])
      match c.value? "o" with
      | none =>
        print result
        return 0
      | some path =>
        match (← get).view.write (pathOf path) (Octets.toBytes result) with
        | .ok files =>
          modify (·.update files)
          return 0
        | .error e =>
          c.complain (octets "open failed: " ++ Call.shown path ++ octets (": " ++ e.reason))
          return 2

def tool : Tool :=
  { Tool.of "bcCdfik:mno:rst:uz" [flag "ignore-leading-blanks" "b", flag "check" "c",
      flag "dictionary-order" "d", flag "ignore-case" "f", flag "ignore-nonprinting" "i",
      valued "key" "k", flag "merge" "m", flag "numeric-sort" "n", valued "output" "o",
      flag "reverse" "r", flag "stable" "s", valued "field-separator" "t", flag "unique" "u",
      flag "zero-terminated" "z"] run with failure := 2 }

end TestBench.Tools.Sort
