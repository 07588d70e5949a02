/-!
Text in double quotes. A quote and a backslash are escaped by a backslash, the
control characters by their short name if they have one and by four hexadecimal
digits otherwise, and every other character stands for itself.
-/
namespace TestBench.Escaped

def hexDigit (n : Nat) : Char := if n < 10 then Char.ofNat (48 + n) else Char.ofNat (87 + n)

def escapeChar (c : Char) : List Char :=
  if c = '"' then ['\\', '"']
  else if c = '\\' then ['\\', '\\']
  else if c = '\x08' then ['\\', 'b']
  else if c = '\x0c' then ['\\', 'f']
  else if c = '\n' then ['\\', 'n']
  else if c = '\r' then ['\\', 'r']
  else if c = '\t' then ['\\', 't']
  else if c.toNat < 32 then
    ['\\', 'u', '0', '0', hexDigit (c.toNat / 16), hexDigit (c.toNat % 16)]
  else [c]

def encode (s : List Char) : List Char := '"' :: (s.flatMap escapeChar ++ ['"'])

def ofString (s : String) : String := String.ofList (encode s.toList)

end TestBench.Escaped
