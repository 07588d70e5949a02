import TestBench.Digest
import TestBench.Tools.Text

/-!
Telling files apart: by the first place at which two of them differ, and by the
digest of each.
-/
namespace TestBench.Tools

open Shell

/-- Says how a program has been used in a wrong way that names itself in all that it says. -/
def misusedByName (c : Call) (message : List Char) : Act Nat := do
  c.complain message
  c.complain c.helpLine
  return 2

namespace Cmp

def visible (c : Char) : List Char :=
  let low (n : Nat) : List Char :=
    if n < 32 then ['^', Char.ofNat (n + 64)] else if n = 127 then ['^', '?'] else [Char.ofNat n]
  if c.toNat < 128 then low c.toNat else ['M', '-'] ++ low (c.toNat - 128)

def octal (c : Char) : List Char := rightAligned 3 (Nat.toDigits 8 c.toNat)

/-- The places at which two texts differ, with the bytes there. -/
def differences (a b : List Char) : List (Nat × Char × Char) :=
  ((a.zip b).zipIdx 1).filterMap fun ((x, y), n) => if x = y then none else some (n, x, y)

def about (c : Call) (path : List Char) (e : FileError) : Act Unit :=
  c.complain (path ++ octets (": " ++ e.reason))

def run (c : Call) : Act Nat := do
  let first := c.operands.headD []
  let second := c.operands.getD 1 standardInput
  let skip (n : Nat) (option : String) : Nat :=
    (((c.operands[n]?).or (c.value? option)).bind size?).getD 0
  match ← readWhole first, ← readWhole second with
  | .error e, _ =>
    unless c.has "s" do about c first e
    return 2
  | _, .error e =>
    unless c.has "s" do about c second e
    return 2
  | .ok a, .ok b =>
    let limit := (c.value? "n").bind size?
    let cut (cs : List Char) : List Char := match limit with
      | some n => cs.take n
      | none => cs
    let a := cut (a.drop (skip 2 "i"))
    let b := cut (b.drop (skip 3 "i"))
    if a = b then return 0
    if c.has "s" then return 1
    let found := differences a b
    let size := min a.length b.length
    let shorter := if a.length < b.length then first else second
    let atEnd : Act Unit := do
      if a.length ≠ b.length then
        let common := a.take size
        let lines := common.count '\n'
        let place :=
          if size = 0 then octets " which is empty"
          else if c.has "l" then octets (" after byte " ++ toString size)
          else if common.getLast? = some '\n' then
            octets (" after byte " ++ toString size ++ ", line " ++ toString lines)
          else octets (" after byte " ++ toString size ++ ", in line " ++ toString (lines + 1))
        c.complain (octets "EOF on " ++ shorter ++ place)
    if c.has "l" then
      let width := (digitsText (max a.length b.length)).length
      found.forM fun (n, x, y) =>
        let shown (d : Char) : List Char :=
          octal d ++ if c.has "b" then ' ' :: leftAligned 4 (visible d) else []
        printLine (Path.dropTrailing (· == ' ')
          (rightAligned width (digitsText n) ++ ' ' :: shown x ++ ' ' :: shown y))
      atEnd
      return 1
    match found.head? with
    | none =>
      atEnd
      return 1
    | some (n, x, y) =>
      let line := (a.take (n - 1)).count '\n' + 1
      let bytes := if c.has "b" then
          octets " is " ++ octal x ++ ' ' :: visible x ++ ' ' :: octal y ++ ' ' :: visible y
        else []
      printLine (first ++ ' ' :: second ++ octets (" differ: "
        ++ (if c.isWide || c.has "b" then "byte " else "char ") ++ toString n
        ++ ", line " ++ toString line) ++ bytes)
      return 1

def runChecked (c : Call) : Act Nat :=
  if c.operands.isEmpty then misusedByName c (octets "missing operand after '" ++ c.name ++ ['\''])
  else run c

def tool : Tool :=
  { Tool.of "bi:ln:s" [flag "print-bytes" "b", valued "ignore-initial" "i", flag "verbose" "l",
      valued "bytes" "n", flag "quiet" "s", flag "silent" "s"] runChecked with
    failure := 2, advice := .namedHelp }

end Cmp

namespace Checksums

def hex (bytes : Bytes) : List Char := (Hex.ofBytes bytes).toList

def run (c : Call) : Act Nat := do
  let mark := if c.has "b" then '*' else ' '
  let complete ← eachInput c.inputs c.about fun path text =>
    printLine (hex (Digest.sha256 (Octets.toBytes text)) ++ ' ' :: mark :: path)
  return ofTruth complete

def tool : Tool := .of "bt" [flag "binary" "b", flag "text" "t"] run

end Checksums

end TestBench.Tools
