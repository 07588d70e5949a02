/-!
Who may do what with a file. A mode has three bits for its owner, three for its
group and three for all others, and changes of it are written with letters.
-/
namespace TestBench.Mode

inductive Sign where
  | add
  | remove
  | set
  deriving DecidableEq, Repr

/-- A change of those bits that a group of letters is about. -/
structure Change where
  /-- All bits of those who are meant. Nobody in particular means all, as far as new files may. -/
  who : Option Nat
  sign : Sign
  bits : Nat
  /-- Whether what only directories and programs allow is allowed too. -/
  ifExecutable : Bool
  /-- Whose bits are taken over. -/
  copied : Option Char
  deriving DecidableEq, Repr

def ownerBits : Nat := 0o4700

def groupBits : Nat := 0o2070

def otherBits : Nat := 0o1007

def allBits : Nat := 0o7777

def who? (c : Char) : Option Nat :=
  match c with
  | 'u' => some ownerBits
  | 'g' => some groupBits
  | 'o' => some otherBits
  | 'a' => some allBits
  | _ => none

def sign? (c : Char) : Option Sign :=
  match c with
  | '+' => some .add
  | '-' => some .remove
  | '=' => some .set
  | _ => none

def bits? (c : Char) : Option Nat :=
  match c with
  | 'r' => some 0o444
  | 'w' => some 0o222
  | 'x' => some 0o111
  | 's' => some 0o6000
  | 't' => some 0o1000
  | _ => none

def octal? (cs : List Char) : Option Nat :=
  if cs.isEmpty ∨ cs.any (fun c => c < '0' || '7' < c) then none
  else some (cs.foldl (fun n d => 8 * n + (d.toNat - '0'.toNat)) 0)

def addPermission (ch : Change) (c : Char) : Option Change :=
  if c = 'X' then some { ch with ifExecutable := true }
  else match bits? c with
    | some bits => some { ch with bits := ch.bits ||| bits }
    | none => if ['u', 'g', 'o'].contains c then some { ch with copied := some c } else none

/-- The changes that follow the letters for those who are meant. -/
def changes? (who : Option Nat) : Nat → List Char → Option (List Change)
  | 0, _ => none
  | _, [] => some []
  | limit + 1, c :: rest => do
    let sign ← sign? c
    let letters := rest.takeWhile fun d => (sign? d).isNone
    let ch ← letters.foldlM addPermission ⟨who, sign, 0, false, none⟩
    return ch :: (← changes? who limit (rest.drop letters.length))

def clause? (cs : List Char) : Option (List Change) :=
  let letters := cs.takeWhile fun c => (who? c).isSome
  let rest := cs.drop letters.length
  let who := if letters.isEmpty then none
    else some (letters.foldl (fun n c => n ||| (who? c).getD 0) 0)
  if rest.isEmpty then none else changes? who (rest.length + 1) rest

def splitAtCommas : List Char → List (List Char)
  | [] => [[]]
  | c :: rest => match c, splitAtCommas rest with
    | ',', pieces => [] :: pieces
    | c, piece :: more => (c :: piece) :: more
    | c, [] => [[c]]

def symbolic? (cs : List Char) : Option (List Change) :=
  ((splitAtCommas cs).mapM clause?).map List.flatten

/-- The bits of a group of users, for everybody. -/
def spread (mode : Nat) (c : Char) : Nat :=
  let bits := match c with
    | 'u' => mode >>> 6
    | 'g' => mode >>> 3
    | _ => mode
  (bits &&& 7) * 0o111

def without (mode bits : Nat) : Nat := mode &&& (allBits ^^^ (bits &&& allBits))

def apply (mask : Nat) (isDirectory : Bool) (mode : Nat) (ch : Change) : Nat :=
  let who := ch.who.getD (without allBits mask)
  let extra := if ch.ifExecutable && (isDirectory || mode &&& 0o111 != 0) then 0o111 else 0
  let copied := (ch.copied.map (spread mode)).getD 0
  let bits := (ch.bits ||| extra ||| copied) &&& who
  match ch.sign with
  | .add => mode ||| bits
  | .remove => without mode bits
  | .set => without mode ((ch.who.getD allBits) &&& 0o777) ||| bits

def changed? (mask : Nat) (isDirectory : Bool) (text : List Char) (mode : Nat) : Option Nat :=
  match octal? text with
  | some n => if n ≤ allBits then some n else none
  | none => (symbolic? text).map fun chs => chs.foldl (apply mask isDirectory) mode

def digits (mode : Nat) : List Char := Nat.toDigits 8 mode

def letters (mode : Nat) : List Char :=
  let three (bits : Nat) (special : Bool) (yes no : Char) : List Char :=
    [if bits &&& 4 != 0 then 'r' else '-', if bits &&& 2 != 0 then 'w' else '-',
      match special, bits &&& 1 != 0 with
      | true, true => yes
      | true, false => no
      | false, true => 'x'
      | false, false => '-']
  three (mode >>> 6) (mode &&& 0o4000 != 0) 's' 'S'
    ++ three (mode >>> 3) (mode &&& 0o2000 != 0) 's' 'S'
    ++ three mode (mode &&& 0o1000 != 0) 't' 'T'

end TestBench.Mode
