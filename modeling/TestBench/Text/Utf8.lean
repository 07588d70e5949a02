/-!
Characters as bytes. Reading never fails: where the bytes do not spell a
character, the longest run of them that could still have begun one counts as a
single ill-formed unit, and reading goes on at the byte after it.
-/
namespace TestBench

abbrev Bytes := List UInt8

namespace Utf8

def encode (cs : List Char) : Bytes := cs.flatMap String.utf8EncodeChar

def ofString (s : String) : Bytes := encode s.toList

/-- A character that is not complete: the bits so far, how many bytes are due, and the range of
the next one. -/
structure Pending where
  bits : Nat
  due : Nat
  low : Nat
  high : Nat

/-- What a byte at the start of a character means. -/
inductive Lead where
  | ascii (c : Char)
  | more (p : Pending)
  | ill

/-- The shortest forms only, no surrogates and nothing above U+10FFFF: the second byte's range
rules these out. -/
def lead (b : Nat) : Lead :=
  if b < 0x80 then .ascii (Char.ofNat b)
  else if b < 0xC2 then .ill
  else if b < 0xE0 then .more ⟨b - 0xC0, 1, 0x80, 0xBF⟩
  else if b = 0xE0 then .more ⟨0, 2, 0xA0, 0xBF⟩
  else if b = 0xED then .more ⟨0xD, 2, 0x80, 0x9F⟩
  else if b < 0xF0 then .more ⟨b - 0xE0, 2, 0x80, 0xBF⟩
  else if b = 0xF0 then .more ⟨0, 3, 0x90, 0xBF⟩
  else if b < 0xF4 then .more ⟨b - 0xF0, 3, 0x80, 0xBF⟩
  else if b = 0xF4 then .more ⟨4, 3, 0x80, 0x8F⟩
  else .ill

/-- The units written by a byte at the start of a character, and what is then pending. -/
def begin (b : Nat) : List (Option Char) × Option Pending :=
  match lead b with
  | .ascii c => ([some c], none)
  | .more p => ([], some p)
  | .ill => ([none], none)

def step (pending : Option Pending) (b : Nat) : List (Option Char) × Option Pending :=
  match pending with
  | none => begin b
  | some p =>
    if p.low ≤ b ∧ b ≤ p.high then
      let bits := p.bits * 64 + (b - 0x80)
      if p.due ≤ 1 then ([some (Char.ofNat bits)], none)
      else ([], some ⟨bits, p.due - 1, 0x80, 0xBF⟩)
    else
      let next := begin b
      (none :: next.1, next.2)

def decodeFrom : Option Pending → Bytes → List (Option Char)
  | none, [] => []
  | some _, [] => [none]
  | pending, b :: rest =>
    let next := step pending b.toNat
    next.1 ++ decodeFrom next.2 rest

/-- The characters that the bytes spell; `none` stands for an ill-formed unit. -/
def decode (bytes : Bytes) : List (Option Char) := decodeFrom none bytes

/-- The text that the bytes spell, if all of them do. -/
def toString? (bytes : Bytes) : Option String := (decode bytes).mapM id |>.map String.ofList

/-- The text with a replacement character for each ill-formed unit. -/
def toStringLossy (bytes : Bytes) : String :=
  String.ofList ((decode bytes).map (·.getD '\ufffd'))

end Utf8

end TestBench
