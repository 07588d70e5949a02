import TestBench.Shell.Session

/-!
How programs show names in what they say. A name may stand as it is, in
quotation marks, or in a form that a shell would read back.
-/
namespace TestBench.Tools

open Shell

/-- Whether the variables of a shell ask for texts in which characters have several bytes. -/
def isWide (sh : ShellState) : Bool :=
  let value (name : String) : Option (List Char) :=
    ((sh.known? name).filter (·.isExported)).bind fun v => v.value.filter fun cs => !cs.isEmpty
  let chosen := ((value "LC_ALL").or (value "LC_CTYPE")).or (value "LANG")
  chosen.any fun cs => ["C.UTF-8", "C.utf8", "C.UTF8"].contains (String.ofList cs)

inductive Showing where
  /-- As a shell would read it back, in quotation marks only if it needs them. -/
  | plain
  /-- As a shell would read it back, always in quotation marks. -/
  | marked
  /-- In the quotation marks of a language. -/
  | cited (isWide : Bool)
  deriving DecidableEq, Repr

namespace Showing

def isControl (c : Char) : Bool := c.toNat < 32 || c.toNat == 127

/-- Whether a character has a byte of its own that is no part of a longer one. -/
def isHigh (c : Char) : Bool := 127 < c.toNat

def threeOctal (c : Char) : List Char :=
  let ds := Nat.toDigits 8 c.toNat
  List.replicate (3 - ds.length) '0' ++ ds

def escape (c : Char) : List Char :=
  match c with
  | '\n' => ['\\', 'n']
  | '\t' => ['\\', 't']
  | '\r' => ['\\', 'r']
  | _ =>
    match c.toNat with
    | 7 => ['\\', 'a']
    | 8 => ['\\', 'b']
    | 11 => ['\\', 'v']
    | 12 => ['\\', 'f']
    | _ => '\\' :: threeOctal c

/-- The characters that a shell does not take as they are. -/
def isSpecial (first : Bool) (c : Char) : Bool :=
  " !\"$&()*;<=>[^\x60|?\\'".toList.contains c || (first && (c == '#' || c == '~'))

/-- Whether a name can stand between the other quotation marks. -/
def fitsDouble (cs : List Char) : Bool :=
  !cs.any fun c => "!\"$&()*;<=>[^\x60|?\\".toList.contains c

/-- Runs of characters that have to be escaped, and of others. -/
def runs (p : Char → Bool) : List Char → List (Bool × List Char)
  | [] => []
  | c :: rest => match runs p rest with
    | (b, cs) :: more => if p c = b then (b, c :: cs) :: more else (p c, [c]) :: (b, cs) :: more
    | [] => [(p c, [c])]

def shellQuoted (cs : List Char) : List Char :=
  let needsEscape (c : Char) : Bool := isControl c || isHigh c
  if cs.contains '\'' && fitsDouble cs && !cs.any needsEscape then '"' :: cs ++ ['"']
  else
    let inside (cs : List Char) : List Char :=
      cs.flatMap fun c => if c = '\'' then octets "'\\''" else [c]
    match runs needsEscape cs with
    | [] => octets "''"
    | parts =>
      let shown := parts.flatMap fun (escaped, cs) =>
        if escaped then octets "'$'" ++ cs.flatMap escape ++ ['\'']
        else '\'' :: inside cs ++ ['\'']
      let shown := match parts with
        | (true, _) :: _ => '\'' :: shown
        | _ => shown
      join shown
where
  /-- Quotation marks that end and begin at once around an escaped run belong to one. -/
  join : List Char → List Char
    | '\'' :: '\'' :: '$' :: '\'' :: rest => '\'' :: '$' :: '\'' :: join rest
    | c :: rest => c :: join rest
    | [] => []

def citation (isWide : Bool) (cs : List Char) : List Char :=
  let (before, after) := if isWide then (octets "‘", octets "’") else (['\''], ['\''])
  let shown := cs.flatMap fun c =>
    if c = '\\' ∨ (c = '\'' ∧ !isWide) then ['\\', c]
    else if isControl c ∨ (isHigh c ∧ !isWide) then escape c
    else [c]
  before ++ shown ++ after

def render (s : Showing) (cs : List Char) : List Char :=
  match s with
  | cited isWide => citation isWide cs
  | marked => shellQuoted cs
  | plain =>
    let special := match cs with
      | [] => true
      | c :: rest => isSpecial true c || rest.any (isSpecial false) || cs.any isControl
          || cs == ['\x7b'] || cs == ['\x7d']
    if special then shellQuoted cs else cs

end Showing

end TestBench.Tools
