import TestBench.Text.Escaped
import TestBench.Text.Utf8

/-!
Bytes as pairs of lowercase hexadecimal digits.
-/
namespace TestBench.Hex

def ofByte (b : UInt8) : List Char :=
  [Escaped.hexDigit (b.toNat / 16), Escaped.hexDigit (b.toNat % 16)]

def ofBytes (bytes : Bytes) : String := String.ofList (bytes.flatMap ofByte)

/-- The value of a hexadecimal digit in either case. -/
def digit? (c : Char) : Option Nat :=
  if '0' ≤ c ∧ c ≤ '9' then some (c.toNat - 48)
  else if 'a' ≤ c ∧ c ≤ 'f' then some (c.toNat - 87)
  else if 'A' ≤ c ∧ c ≤ 'F' then some (c.toNat - 55)
  else none

/-- The bytes that pairs of digits spell. -/
def toBytes? : List Char → Option Bytes
  | [] => some []
  | [_] => none
  | a :: b :: rest => do
    let high ← digit? a
    let low ← digit? b
    return UInt8.ofNat (16 * high + low) :: (← toBytes? rest)

end TestBench.Hex
