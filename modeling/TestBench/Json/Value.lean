import TestBench.Text.Escaped
import TestBench.Text.Hex

/-!
JSON values, their compact spelling and their reading. A value that can stand
where nobody looks at it, but that no text, integer or object with readable
keys spells, is read as `unusable`.
-/
namespace TestBench

inductive JsonValue where
  | null
  | boolean (value : Bool)
  | integer (value : Int)
  | text (value : String)
  | array (items : List JsonValue)
  | object (members : List (String × JsonValue))
  | unusable

namespace JsonValue

def literal : Bool → List Char
  | true => "true".toList
  | false => "false".toList

mutual

/-- The spelling of a value without any blanks, in front of what follows it. -/
def spell : JsonValue → List Char → List Char
  | null, rest => "null".toList ++ rest
  | boolean value, rest => literal value ++ rest
  | integer value, rest => (toString value).toList ++ rest
  | text value, rest => Escaped.encode value.toList ++ rest
  | array items, rest => '[' :: spellItems items (']' :: rest)
  | object members, rest => '{' :: spellMembers members ('}' :: rest)
  | unusable, rest => rest

/-- Items with commas between them. -/
def spellItems : List JsonValue → List Char → List Char
  | [], rest => rest
  | [item], rest => spell item rest
  | item :: next :: more, rest => spell item (',' :: spellItems (next :: more) rest)

def spellMembers : List (String × JsonValue) → List Char → List Char
  | [], rest => rest
  | [(key, value)], rest => Escaped.encode key.toList ++ ':' :: spell value rest
  | (key, value) :: next :: more, rest =>
    Escaped.encode key.toList ++ ':' :: spell value (',' :: spellMembers (next :: more) rest)

end

def print (v : JsonValue) : List Char := spell v []

mutual

/-- The number of values in a value, itself included. -/
def size : JsonValue → Nat
  | array items => 1 + sizeItems items
  | object members => 1 + sizeMembers members
  | _ => 1

def sizeItems : List JsonValue → Nat
  | [] => 0
  | item :: rest => size item + sizeItems rest

def sizeMembers : List (String × JsonValue) → Nat
  | [] => 0
  | (_, value) :: rest => size value + sizeMembers rest

end

/-- The characters ahead; `none` is an ill-formed unit of the bytes. -/
abbrev Input := List (Option Char)

def isBlank : Option Char → Bool
  | some c => c == ' ' || c == '\n' || c == '\t' || c == '\r'
  | none => false

def skipBlanks (cs : Input) : Input := cs.dropWhile isBlank

/-- What a string is made of: characters, halves of surrogate pairs, ill-formed units. -/
inductive Piece where
  | char (c : Char)
  | half (unit : Nat)
  | ill

def isLeading (unit : Nat) : Bool := 0xD800 ≤ unit && unit < 0xDC00

def isTrailing (unit : Nat) : Bool := 0xDC00 ≤ unit && unit < 0xE000

def pieceOfUnit (unit : Nat) : Piece :=
  if isLeading unit || isTrailing unit then .half unit else .char (Char.ofNat unit)

/-- The text of the pieces, if each half of a pair has its other half. -/
def join : List Piece → Option (List Char)
  | [] => some []
  | .char c :: rest => (join rest).map (c :: ·)
  | .half high :: .half low :: rest =>
    if isLeading high && isTrailing low then
      (join rest).map (Char.ofNat (0x10000 + (high - 0xD800) * 0x400 + (low - 0xDC00)) :: ·)
    else none
  | .half _ :: _ => none
  | .ill :: _ => none

def hexDigit? : Option Char → Option Nat
  | some c => Hex.digit? c
  | none => none

/-- The character that a backslash and this one stand for. -/
def unescape? (c : Char) : Option Char :=
  if c = '"' ∨ c = '\\' ∨ c = '/' then some c
  else if c = 'b' then some '\x08'
  else if c = 'f' then some '\x0c'
  else if c = 'n' then some '\n'
  else if c = 'r' then some '\r'
  else if c = 't' then some '\t'
  else none

/-- The pieces of a string after its opening quote, and what follows the closing one. -/
def readPieces : Input → Option (List Piece × Input)
  | [] => none
  | some '"' :: rest => some ([], rest)
  | some '\\' :: some 'u' :: a :: b :: c :: d :: rest => do
    let unit := ((← hexDigit? a) * 16 + (← hexDigit? b)) * 256
      + ((← hexDigit? c) * 16 + (← hexDigit? d))
    let (pieces, after) ← readPieces rest
    return (pieceOfUnit unit :: pieces, after)
  | some '\\' :: some c :: rest => do
    let d ← unescape? c
    let (pieces, after) ← readPieces rest
    return (.char d :: pieces, after)
  | some '\\' :: _ => none
  | some c :: rest =>
    if c.toNat < 32 then none
    else do
      let (pieces, after) ← readPieces rest
      return (.char c :: pieces, after)
  | none :: rest => do
    let (pieces, after) ← readPieces rest
    return (.ill :: pieces, after)

def isDigit : Option Char → Bool
  | some c => '0' ≤ c && c ≤ '9'
  | none => false

def digitValue : Option Char → Nat
  | some c => c.toNat - '0'.toNat
  | none => 0

def decimal (digits : Input) : Nat := digits.foldl (fun n d => 10 * n + digitValue d) 0

/-- At least one digit and what follows the digits. -/
def readDigits (cs : Input) : Option (Input × Input) :=
  match cs.takeWhile isDigit with
  | [] => none
  | digits => some (digits, cs.dropWhile isDigit)

/-- A whole part has no leading zero. -/
def readWhole (cs : Input) : Option (Nat × Input) := do
  let (digits, rest) ← readDigits cs
  if digits.head? = some (some '0') ∧ 1 < digits.length then none
  else return (decimal digits, rest)

/-- Skips a fraction if there is one; the flag says whether. -/
def skipFraction : Input → Option (Bool × Input)
  | some '.' :: rest => (readDigits rest).map fun r => (true, r.2)
  | cs => some (false, cs)

def skipExponent : Input → Option (Bool × Input)
  | some e :: rest =>
    if e = 'e' ∨ e = 'E' then
      let digits := match rest with
        | some s :: more => if s = '+' ∨ s = '-' then more else rest
        | _ => rest
      (readDigits digits).map fun r => (true, r.2)
    else some (false, some e :: rest)
  | cs => some (false, cs)

/-- A number after its sign. Only whole numbers other than minus zero are integers. -/
def readNumber (negative : Bool) (cs : Input) : Option (JsonValue × Input) := do
  let (whole, rest) ← readWhole cs
  let (fraction, rest) ← skipFraction rest
  let (exponent, rest) ← skipExponent rest
  if fraction || exponent || (negative && whole == 0) then return (unusable, rest)
  else return (integer (if negative then -whole else whole), rest)

/-- Reads the rest of a word. -/
def readWord (word : List Char) (value : JsonValue) (cs : Input) : Option (JsonValue × Input) :=
  if (word.map some).isPrefixOf cs then some (value, cs.drop word.length) else none

def textOfPieces (pieces : List Piece) : Option String := (join pieces).map String.ofList

mutual

/-- A value and what follows it; the limit bounds the values inside and beside each other. -/
def read : Nat → Input → Option (JsonValue × Input)
  | 0, _ => none
  | limit + 1, cs =>
    match skipBlanks cs with
    | some '"' :: rest => do
      let (pieces, after) ← readPieces rest
      return (((textOfPieces pieces).map text).getD unusable, after)
    | some '[' :: rest =>
      match skipBlanks rest with
      | some ']' :: after => some (array [], after)
      | _ => do
        let (items, after) ← readItems limit rest
        return (array items, after)
    | some '{' :: rest =>
      match skipBlanks rest with
      | some '}' :: after => some (object [], after)
      | _ => do
        let (members, after) ← readMembers limit rest
        return ((members.map object).getD unusable, after)
    | some 'n' :: rest => readWord "ull".toList null rest
    | some 't' :: rest => readWord "rue".toList (boolean true) rest
    | some 'f' :: rest => readWord "alse".toList (boolean false) rest
    | some '-' :: rest => readNumber true rest
    | rest => readNumber false rest

/-- One or more items and the closing bracket. -/
def readItems : Nat → Input → Option (List JsonValue × Input)
  | 0, _ => none
  | limit + 1, cs => do
    let (item, rest) ← read limit cs
    match skipBlanks rest with
    | some ',' :: more => do
      let (items, after) ← readItems limit more
      return (item :: items, after)
    | some ']' :: after => return ([item], after)
    | _ => none

/-- One or more members and the closing brace; nothing is known of members with unreadable
keys among them. -/
def readMembers : Nat → Input → Option (Option (List (String × JsonValue)) × Input)
  | 0, _ => none
  | limit + 1, cs =>
    match skipBlanks cs with
    | some '"' :: rest => do
      let (pieces, rest) ← readPieces rest
      match skipBlanks rest with
      | some ':' :: rest => do
        let (value, rest) ← read limit rest
        let member := (textOfPieces pieces).map (·, value)
        match skipBlanks rest with
        | some ',' :: more => do
          let (members, after) ← readMembers limit more
          return (member.bind fun m => members.map (m :: ·), after)
        | some '}' :: after => return (member.map ([·]), after)
        | _ => none
      | _ => none
    | _ => none

end

/-- The value that the bytes spell, with nothing but blanks around it. -/
def ofBytes? (bytes : Bytes) : Option JsonValue :=
  let input := Utf8.decode bytes
  match read (input.length + 1) input with
  | some (value, rest) => if skipBlanks rest = [] then some value else none
  | none => none

end JsonValue

end TestBench
