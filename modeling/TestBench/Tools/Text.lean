import TestBench.Tools.Call

/-!
What many programs do with texts: taking them apart into lines and words, and
writing numbers in columns.
-/
namespace TestBench.Tools

open Shell

/-- The lines of a text without their ends. -/
def linesOf (cs : List Char) : List (List Char) :=
  let pieces := Path.splitAt '\n' cs
  if pieces.getLast? = some [] then pieces.dropLast else pieces

def unlines (ls : List (List Char)) : List Char := ls.flatMap (· ++ ['\n'])

/-- The records of a text that end with a character, with their ends. -/
def recordsOf (ending : Char) (cs : List Char) : List (List Char) :=
  let pieces := Path.splitAt ending cs
  let whole := pieces.dropLast.map (· ++ [ending])
  match pieces.getLast? with
  | none | some [] => whole
  | some last => whole ++ [last]

/-- The lines of a text with their ends. -/
def wholeLines (cs : List Char) : List (List Char) := recordsOf '\n' cs

def printLines (ls : List (List Char)) : Act Unit := print (unlines ls)

def printLine (l : List Char) : Act Unit := print (l ++ ['\n'])

/-- The last ones of a list, as many as there should be. -/
def takeLast {α : Type} (n : Nat) (xs : List α) : List α := xs.drop (xs.length - n)

def dropLast {α : Type} (n : Nat) (xs : List α) : List α := xs.take (xs.length - n)

def digitsText (n : Nat) : List Char := (toString n).toList

def rightAligned (width : Nat) (cs : List Char) : List Char :=
  List.replicate (width - cs.length) ' ' ++ cs

def leftAligned (width : Nat) (cs : List Char) : List Char :=
  cs ++ List.replicate (width - cs.length) ' '

def isSpaceCharacter (c : Char) : Bool := c == ' ' || (9 ≤ c.toNat && c.toNat ≤ 13)

def isBlankCharacter (c : Char) : Bool := c == ' ' || c == '\t'

def total (ns : List Nat) : Nat := ns.foldl (· + ·) 0

/-- What a letter behind a number multiplies it by. -/
def multiplier? (cs : List Char) : Option Nat :=
  let power (base : Nat) (c : Char) : Option Nat :=
    (("KMGTPEZYRQ".toList.findIdx? (· == c.toUpper))).map fun n => Nat.pow base (n + 1)
  match cs with
  | [] => some 1
  | ['b'] => some 512
  | ['c'] => some 1
  | ['w'] => some 2
  | [c] => if c = 'k' ∨ c.isUpper then power 1024 c else none
  | [c, 'B'] => if c = 'k' ∨ c.isUpper then power 1000 c else none
  | [c, 'i', 'B'] => if c.isUpper then power 1024 c else none
  | _ => none

/-- A size as programs take it, with a letter that multiplies it. -/
def size? (cs : List Char) : Option Nat :=
  let digits := cs.takeWhile (·.isDigit)
  if digits.isEmpty then none
  else (multiplier? (cs.drop digits.length)).map (decimal digits * ·)

def natural? (cs : List Char) : Option Nat :=
  if !cs.isEmpty && cs.all (·.isDigit) then some (decimal cs) else none

def integer? (cs : List Char) : Option Int :=
  match cs with
  | '-' :: rest => (natural? rest).map fun n => -(n : Int)
  | '+' :: rest => (natural? rest).map fun n => (n : Int)
  | _ => (natural? cs).map fun n => (n : Int)

def Call.ending (c : Call) : Char := if c.has "z" then '\x00' else '\n'

end TestBench.Tools
