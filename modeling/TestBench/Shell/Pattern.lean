import TestBench.Shell.Command

/-!
Patterns of characters. A quoted character in a pattern stands for itself, and
so does the beginning of a set that never ends.
-/
namespace TestBench.Shell

/-- A character of a text, and whether it is quoted. -/
abbrev Marked := Char × Bool

/-- What one place of a pattern is satisfied by. -/
inductive Mark where
  | one (c : Char)
  | any
  | many
  | set (inverted : Bool) (members : List (Char → Bool))

namespace Pattern

def classOf (name : String) (c : Char) : Bool :=
  match name with
  | "alpha" => c.isAlpha
  | "digit" => c.isDigit
  | "alnum" => c.isAlphanum
  | "upper" => c.isUpper
  | "lower" => c.isLower
  | "space" => c == ' ' || (9 ≤ c.toNat && c.toNat ≤ 13)
  | "blank" => c == ' ' || c == '\t'
  | "xdigit" => c.isDigit || ('a' ≤ c.toLower && c.toLower ≤ 'f')
  | "cntrl" => c.toNat < 32 || c.toNat == 127
  | "print" => 32 ≤ c.toNat && c.toNat < 127
  | "graph" => 32 < c.toNat && c.toNat < 127
  | "punct" => 32 < c.toNat && c.toNat < 127 && !c.isAlphanum
  | _ => false

/-- The members of a set up to its closing bracket, and what stands behind it. -/
def members (isFirst : Bool) : Nat → List Marked → Option (List (Char → Bool) × List Marked)
  | 0, _ | _, [] => none
  | limit + 1, (c, quoted) :: rest =>
    if c == ']' && !quoted && !isFirst then some ([], rest)
    else
      let name := (rest.drop 1).takeWhile fun (d, _) => d != ':'
      let after := rest.drop (name.length + 1)
      match c, quoted, rest, after with
      | '[', false, (':', false) :: _, (':', _) :: (']', _) :: others =>
        (members false limit others).map fun (found, others) =>
          (classOf (String.ofList (name.map (·.1))) :: found, others)
      | _, _, ('-', false) :: (last, lastQuoted) :: others, _ =>
        if last == ']' && !lastQuoted then
          (members false limit rest).map fun (found, others) => ((· == c) :: found, others)
        else
          (members false limit others).map fun (found, others) =>
            ((fun d => c ≤ d && d ≤ last) :: found, others)
      | _, _, _, _ =>
        (members false limit rest).map fun (found, others) => ((· == c) :: found, others)

/-- The marks of a pattern, read from its characters. -/
def ofMarked : Nat → List Marked → List Mark
  | 0, _ | _, [] => []
  | limit + 1, (c, true) :: rest => .one c :: ofMarked limit rest
  | limit + 1, ('*', false) :: rest => .many :: ofMarked limit rest
  | limit + 1, ('?', false) :: rest => .any :: ofMarked limit rest
  | limit + 1, ('[', false) :: rest =>
    let (inverted, inside) := match rest with
      | ('!', false) :: inside | ('^', false) :: inside => (true, inside)
      | _ => (false, rest)
    match members true (inside.length + 1) inside with
    | some (found, others) => .set inverted found :: ofMarked limit others
    | none => .one '[' :: ofMarked limit rest
  | limit + 1, (c, false) :: rest => .one c :: ofMarked limit rest

def parse (cs : List Marked) : List Mark := ofMarked cs.length cs

def acceptsOne (c : Char) : Mark → Bool
  | .one d => c == d
  | .any => true
  | .many => true
  | .set inverted found => (found.any fun p => p c) != inverted

/-- The texts that a text ends with, the longest first. -/
def tails : List Char → List (List Char)
  | [] => [[]]
  | c :: rest => (c :: rest) :: tails rest

def accepts : List Mark → List Char → Bool
  | [], cs => cs.isEmpty
  | .many :: marks, cs => (tails cs).any (accepts marks)
  | m :: marks, c :: rest => acceptsOne c m && accepts marks rest
  | _ :: _, [] => false

def isActive (cs : List Marked) : Bool :=
  cs.any fun (c, quoted) => !quoted && ['*', '?', '['].contains c

/-- How much of a text's start a pattern takes, the most or the least of it. -/
def startOf? (longest : Bool) (marks : List Mark) (cs : List Char) : Option Nat :=
  let sizes := (List.range (cs.length + 1)).filter fun n => accepts marks (cs.take n)
  if longest then sizes.getLast? else sizes.head?

def withoutStart (longest : Bool) (marks : List Mark) (cs : List Char) : List Char :=
  cs.drop ((startOf? longest marks cs).getD 0)

def withoutEnd (longest : Bool) (marks : List Mark) (cs : List Char) : List Char :=
  let sizes := (List.range (cs.length + 1)).filter fun n => accepts marks (cs.drop n)
  cs.take (((if longest then sizes.head? else sizes.getLast?)).getD cs.length)

end Pattern

end TestBench.Shell
