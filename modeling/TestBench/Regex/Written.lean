import TestBench.Regex.Basic

/-!
Regular expressions as they are written. In the basic form most signs need a
backslash to have a meaning; in the extended form they need one to have none.
-/
namespace TestBench

inductive RegexFault where
  | openBracket
  | emptyBracket
  | badClass
  | bareClass
  | badCollation
  | badRange
  | openGroup
  | strayClose
  | openInterval
  | badInterval
  | badOrder
  | tooLarge
  | nothingToRepeat
  | unknownGroup
  | lastBackslash
  deriving DecidableEq, Repr

namespace RegexFault

def message : RegexFault → String
  | .openBracket => "Unmatched [, [^, [:, [., or [="
  | .emptyBracket => "Invalid regular expression"
  | .badClass => "Invalid character class name"
  | .bareClass => "character class syntax is [[:space:]], not [:space:]"
  | .badCollation => "Invalid collation character"
  | .badRange => "Invalid range end"
  | .openGroup => "Unmatched ( or \\("
  | .strayClose => "Unmatched ) or \\)"
  | .openInterval => "Unmatched \\\x7b"
  | .badInterval | .badOrder => "Invalid content of \\\x7b\\\x7d"
  | .tooLarge => "Regular expression too big"
  | .nothingToRepeat => "Invalid preceding regular expression"
  | .unknownGroup => "Invalid back reference"
  | .lastBackslash => "Trailing backslash"

end RegexFault

namespace Regex

def classOf? (name : String) : Option (Char → Bool) :=
  match name with
  | "alpha" => some (·.isAlpha)
  | "digit" => some (·.isDigit)
  | "alnum" => some (·.isAlphanum)
  | "upper" => some (·.isUpper)
  | "lower" => some (·.isLower)
  | "space" => some fun c => c == ' ' || (9 ≤ c.toNat && c.toNat ≤ 13)
  | "blank" => some fun c => c == ' ' || c == '\t'
  | "xdigit" => some fun c => c.isDigit || ('a' ≤ c.toLower && c.toLower ≤ 'f')
  | "cntrl" => some fun c => c.toNat < 32 || c.toNat == 127
  | "print" => some fun c => 32 ≤ c.toNat && c.toNat < 127
  | "graph" => some fun c => 32 < c.toNat && c.toNat < 127
  | "punct" => some fun c => 32 < c.toNat && c.toNat < 127 && !c.isAlphanum
  | _ => none

/-- How an expression is written, and which characters count as the same. -/
structure Manner where
  isExtended : Bool
  ignoresCase : Bool
  /-- Whether signs that repeat something have to stand behind something. -/
  isStrict : Bool
  deriving DecidableEq, Repr

namespace Manner

def same (m : Manner) (c d : Char) : Bool :=
  if m.ignoresCase then c.toLower == d.toLower else c == d

/-- A set of characters, with those that count as the same. -/
def widened (m : Manner) (accepts : Char → Bool) (c : Char) : Bool :=
  accepts c || (m.ignoresCase && (accepts c.toLower || accepts c.toUpper))

end Manner

/-- What is still to be read, how many groups have begun, and which of them are complete. -/
structure Source where
  rest : List Char
  groups : Nat
  complete : List Nat

abbrev Reading (α : Type) := StateT Source (Except RegexFault) α

namespace Reading

def peek : Reading (List Char) := return (← get).rest

def skip (n : Nat) : Reading Unit := modify fun s => { s with rest := s.rest.drop n }

/-- The text up to two signs that end it, which are taken too. -/
def upTo (a b : Char) : List Char → Option (List Char × List Char)
  | [] => none
  | [_] => none
  | c :: d :: rest =>
    if c = a ∧ d = b then some ([], rest)
    else (upTo a b (d :: rest)).map fun (cs, rest) => (c :: cs, rest)

/-- One member of a set, which may be given by a name. -/
def member : Reading (Option Char × (Char → Bool)) := do
  match ← peek with
  | '[' :: ':' :: cs =>
    match upTo ':' ']' cs with
    | none => throw .openBracket
    | some (name, rest) =>
      match classOf? (String.ofList name) with
      | none => throw .badClass
      | some accepts =>
        modify fun s => { s with rest := rest }
        return (none, accepts)
  | '[' :: '=' :: c :: '=' :: ']' :: rest | '[' :: '.' :: c :: '.' :: ']' :: rest =>
    modify fun s => { s with rest := rest }
    return (some c, (· == c))
  | '[' :: '.' :: cs | '[' :: '=' :: cs =>
    throw (if cs.contains ']' then .badCollation else .openBracket)
  | c :: rest =>
    modify fun s => { s with rest := rest }
    return (some c, (· == c))
  | [] => throw .openBracket

/-- Whether the signs of a class stand in a set without the brackets that belong to them. -/
def isBareClass (cs : List Char) : Bool :=
  match cs with
  | ':' :: rest =>
    let inside := rest.takeWhile (· != ']')
    inside.getLast? == some ':' && inside.any (· != ':') && !inside.contains '['
      && !inside.contains '-' && inside.length < rest.length
  | _ => false

/-- The members of a set up to its closing bracket. -/
def members : Nat → Bool → Reading (List (Char → Bool))
  | 0, _ => throw .openBracket
  | limit + 1, isFirst => do
    match ← peek with
    | [] => throw .openBracket
    | c :: _ =>
      if c = ']' ∧ !isFirst then
        skip 1
        return []
      let (low, accepts) ← member
      match low, ← peek with
      | some a, '-' :: d :: _ =>
        if d = ']' then return accepts :: (← members limit false)
        skip 1
        let (high, _) ← member
        match high with
        | none => throw .badRange
        | some b =>
          if b < a then throw .badRange
          return (fun c => a ≤ c && c ≤ b) :: (← members limit false)
      | none, '-' :: d :: _ =>
        if d = ']' then return accepts :: (← members limit false)
        throw .badRange
      | _, _ => return accepts :: (← members limit false)

def set (m : Manner) : Reading Regex := do
  let cs ← peek
  let isInverted := cs.head? = some '^'
  if isInverted then skip 1
  if (← peek).isEmpty then throw .emptyBracket
  if isBareClass (← peek) then throw .bareClass
  let found ← members (cs.length + 1) true
  return .one fun c => m.widened (fun c => found.any fun p => p c) c != isInverted

def natural (cs : List Char) : Nat := cs.foldl (fun n d => 10 * n + (d.toNat - '0'.toNat)) 0

def intervalLimit : Nat := 32767

/-- How often something is repeated, as it stands between braces. -/
def interval? (m : Manner) (cs : List Char) :
    Except RegexFault ((Nat × Option Nat) × List Char) := do
  let closes (cs : List Char) : Bool := cs.contains '\x7d'
  let low := cs.takeWhile (·.isDigit)
  let rest := cs.drop low.length
  let (bounds, rest) ← match rest with
    | ',' :: others =>
      let high := others.takeWhile (·.isDigit)
      pure ((natural low, if high.isEmpty then none else some (natural high)),
        others.drop high.length)
    | _ =>
      if low.isEmpty then throw (if closes rest then .badInterval else .openInterval)
      pure ((natural low, some (natural low)), rest)
  let rest ← match m.isExtended, rest with
    | true, '\x7d' :: others => pure others
    | false, '\\' :: '\x7d' :: others => pure others
    | _, others => throw (if closes others then .badInterval else .openInterval)
  if bounds.2.any (· < bounds.1) then throw .badOrder
  if intervalLimit < bounds.1 || bounds.2.any (intervalLimit < ·) then throw .tooLarge
  return (bounds, rest)

/-- How often what has just been read is repeated, if it is. -/
def repetition? (m : Manner) : Reading (Option (Nat × Option Nat)) := do
  let take (n : Nat) (bounds : Nat × Option Nat) : Reading (Option (Nat × Option Nat)) := do
    skip n
    return some bounds
  match m.isExtended, ← peek with
  | _, '*' :: _ => take 1 (0, none)
  | true, '+' :: _ => take 1 (1, none)
  | true, '?' :: _ => take 1 (0, some 1)
  | false, '\\' :: '+' :: _ => take 2 (1, none)
  | false, '\\' :: '?' :: _ => take 2 (0, some 1)
  | true, '\x7b' :: cs =>
    match interval? m cs with
    | .ok (bounds, rest) =>
      modify fun s => { s with rest := rest }
      return some bounds
    | .error e => if m.isStrict ∨ e = .tooLarge ∨ e = .badOrder then throw e else return none
  | false, '\\' :: '\x7b' :: cs =>
    let (bounds, rest) ← interval? m cs
    modify fun s => { s with rest := rest }
    return some bounds
  | _, _ => return none

def repetitions (m : Manner) : Nat → Regex → Reading Regex
  | 0, r => return r
  | limit + 1, r => do
    match ← repetition? m with
    | some (least, most) =>
      match m.isStrict && !m.isExtended, ← peek with
      | true, '*' :: _ | true, '\\' :: '\x7b' :: _ => throw .nothingToRepeat
      | _, _ => repetitions m limit (.repeated r least most)
    | none => return r

def literal (m : Manner) (c : Char) : Regex := .one (m.same c)

/-- What a backslash and a letter stand for, apart from the signs of the two forms. -/
def escape? (c : Char) : Option Regex :=
  let isSpace (c : Char) : Bool := c == ' ' || (9 ≤ c.toNat && c.toNat ≤ 13)
  match c with
  | 'w' => some (.one Point.isWordCharacter)
  | 'W' => some (.one fun c => !Point.isWordCharacter c)
  | 's' => some (.one isSpace)
  | 'S' => some (.one fun c => !isSpace c)
  | 'b' => some (.at .wordEdge)
  | 'B' => some (.at .noWordEdge)
  | '<' => some (.at .wordStart)
  | '>' => some (.at .wordEnd)
  | '\x60' => some (.at .textStart)
  | '\'' => some (.at .textEnd)
  | _ => none

def closesBranch (m : Manner) (depth : Nat) (cs : List Char) : Bool :=
  match m.isExtended, cs with
  | _, [] => true
  | true, '|' :: _ => true
  | true, ')' :: _ => 0 < depth
  | false, '\\' :: '|' :: _ => true
  | false, '\\' :: ')' :: _ => 0 < depth
  | _, _ => false

/-- Whether a dollar sign that these characters follow stands at an end. -/
def isAtEnd (m : Manner) (cs : List Char) : Bool :=
  match m.isExtended, cs with
  | _, [] => true
  | true, _ => true
  | false, '\\' :: '|' :: _ | false, '\\' :: ')' :: _ => true
  | _, _ => false

mutual

/-- The alternatives up to the end of a group. -/
def alternatives (m : Manner) (depth : Nat) : Nat → Reading Regex
  | 0 => throw .tooLarge
  | limit + 1 => do
    let first ← branch m depth limit true
    match m.isExtended, ← peek with
    | true, '|' :: _ =>
      skip 1
      return .either first (← alternatives m depth limit)
    | false, '\\' :: '|' :: _ =>
      skip 2
      return .either first (← alternatives m depth limit)
    | _, _ => return first

def branch (m : Manner) (depth : Nat) : Nat → Bool → Reading Regex
  | 0, _ => throw .tooLarge
  | limit + 1, isFirst => do
    if closesBranch m depth (← peek) then return .empty
    let (r, staysFirst) ← atom m depth limit isFirst
    let rest ← branch m depth limit staysFirst
    return match rest with
      | .empty => r
      | _ => .concat r rest

/-- One thing with its repetitions, and whether what follows still counts as the first. -/
def atom (m : Manner) (depth : Nat) : Nat → Bool → Reading (Regex × Bool)
  | 0, _ => throw .tooLarge
  | limit + 1, isFirst => do
    let repeated (n : Nat) (r : Regex) : Reading (Regex × Bool) := do
      skip n
      return (← repetitions m limit r, false)
    let inGroup (n : Nat) : Reading (Regex × Bool) := do
      let number := (← get).groups + 1
      modify fun s => { s with rest := s.rest.drop n, groups := number }
      let body ← alternatives m (depth + 1) limit
      match m.isExtended, ← peek with
      | true, ')' :: rest | false, '\\' :: ')' :: rest =>
        modify fun s => { s with rest := rest, complete := number :: s.complete }
        return (← repetitions m limit (.group number body), false)
      | _, _ => throw .openGroup
    match m.isExtended, ← peek with
    | _, [] => return (.empty, false)
    | _, '[' :: _ =>
      skip 1
      let r ← set m
      repeated 0 r
    | _, '.' :: _ => repeated 1 (.one fun _ => true)
    | true, '(' :: _ => inGroup 1
    | false, '\\' :: '(' :: _ => inGroup 2
    | true, ')' :: _ => if m.isStrict then throw .strayClose else repeated 1 (literal m ')')
    | false, '\\' :: ')' :: _ => throw .strayClose
    | true, '^' :: _ =>
      skip 1
      return (← repetitions m limit (.at .lineStart), true)
    | false, '^' :: _ =>
      if isFirst then
        skip 1
        return (.at .lineStart, true)
      else repeated 1 (literal m '^')
    | _, '$' :: cs =>
      if isAtEnd m cs then
        skip 1
        if m.isExtended then return (← repetitions m limit (.at .lineEnd), false)
        return (.at .lineEnd, false)
      else repeated 1 (literal m '$')
    | true, '*' :: _ | true, '+' :: _ | true, '?' :: _ =>
      if m.isStrict then throw .nothingToRepeat
      skip 1
      return (.empty, true)
    | true, '\x7b' :: cs =>
      if m.isStrict then throw .nothingToRepeat
      if let (true, .ok (_, rest)) := (isFirst, interval? m cs) then
        modify fun s => { s with rest := rest }
        return (.empty, true)
      repeated 1 (literal m '\x7b')
    | false, '*' :: _ => repeated 1 (literal m '*')
    | false, '\\' :: '\x7b' :: _ =>
      if isFirst ∧ m.isStrict then throw .nothingToRepeat
      repeated 2 (literal m '\x7b')
    | _, '\\' :: [] => throw .lastBackslash
    | _, '\\' :: c :: _ =>
      if '1' ≤ c ∧ c ≤ '9' then
        let n := c.toNat - '0'.toNat
        if (← get).complete.contains n then repeated 2 (.again n m.same)
        else throw .unknownGroup
      else repeated 2 ((escape? c).getD (literal m c))
    | _, c :: _ => repeated 1 (literal m c)

end

end Reading

/-- The expression that a text spells, and how many groups it has. -/
def parse (m : Manner) (cs : List Char) : Except RegexFault (Regex × Nat) := do
  let (r, s) ← (Reading.alternatives m 0 (4 * cs.length + 4)).run ⟨cs, 0, []⟩
  if s.rest.isEmpty then return (r, s.groups) else throw .strayClose

/-- An expression that is found where a text is. -/
def ofText (m : Manner) (cs : List Char) : Regex :=
  cs.foldr (fun c r => .concat (Reading.literal m c) r) .empty

end Regex

end TestBench
