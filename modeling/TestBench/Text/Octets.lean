import TestBench.Text.Utf8

/-!
Bytes as characters. Every character of such a text is one byte, whatever the
bytes spell together.
-/
namespace TestBench.Octets

def ofBytes (bytes : Bytes) : List Char := bytes.map fun b => Char.ofNat b.toNat

def toBytes (cs : List Char) : Bytes := cs.map fun c => UInt8.ofNat c.toNat

def ofString (s : String) : List Char := ofBytes (Utf8.ofString s)

def toString (cs : List Char) : String := Utf8.toStringLossy (toBytes cs)

/-- Where the bytes stand that are part of no character. No other characters stand there. -/
def strayBase : Nat := 0xF0000

def isStray (c : Char) : Bool := strayBase ≤ c.toNat && c.toNat < strayBase + 256

/-- The characters that the bytes of a text spell. -/
def widenFrom : Nat → List Char → List Char
  | 0, _ | _, [] => []
  | limit + 1, c :: rest =>
    match Utf8.lead c.toNat with
    | .ascii a => a :: widenFrom limit rest
    | .ill => Char.ofNat (strayBase + c.toNat) :: widenFrom limit rest
    | .more p =>
      match (Utf8.toString? (toBytes (c :: rest.take p.due))).map String.toList with
      | some [d] => d :: widenFrom limit (rest.drop p.due)
      | _ => Char.ofNat (strayBase + c.toNat) :: widenFrom limit rest

/-- A text in which a character may have several bytes, as characters. -/
def widen (isWide : Bool) (cs : List Char) : List Char :=
  if isWide && cs.any (127 < ·.toNat) then widenFrom cs.length cs else cs

/-- The bytes of characters again. -/
def narrow (isWide : Bool) (cs : List Char) : List Char :=
  if isWide && cs.any (127 < ·.toNat) then
    cs.flatMap fun c =>
      if isStray c then [Char.ofNat (c.toNat - strayBase)] else ofBytes (String.utf8EncodeChar c)
  else cs

end TestBench.Octets
