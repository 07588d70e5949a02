import TestBench.Regex.Written
import TestBench.Shell.Text
import TestBench.Tools.Text

/-!
Replacing, removing and squeezing single characters. Sets of characters are
written with ranges, classes and repetitions.
-/
namespace TestBench.Tools.Translate

open Shell

inductive Part where
  | one (c : Char)
  | range (low high : Char)
  | named (name : String)
  | equal (c : Char)
  /-- So many times, or as often as it takes. -/
  | repeated (c : Char) (count : Option Nat)
  deriving DecidableEq, Repr

/-- A character of a set, and whether it has been written with a backslash. -/
abbrev Spelled := Char × Bool

def spelled : Nat → List Char → List Spelled
  | 0, _ | _, [] => []
  | limit + 1, '\\' :: c :: rest =>
    match octalDigit? c with
    | some _ =>
      let digits := (c :: rest).takeWhile fun d => (octalDigit? d).isSome
      let value (n : Nat) : Nat :=
        (digits.take n).foldl (fun m d => 8 * m + (octalDigit? d).getD 0) 0
      let size := if digits.length < 3 then digits.length else if 255 < value 3 then 2 else 3
      (Char.ofNat (value size), true) :: spelled limit ((c :: rest).drop size)
    | none => (((escaped? c).map Char.ofNat).getD c, true) :: spelled limit rest
  | limit + 1, c :: rest => (c, false) :: spelled limit rest

def isPlain (s : Spelled) (c : Char) : Bool := s == (c, false)

def upTo (a : Char) : List Spelled → Option (List Char × List Spelled)
  | s :: t :: rest =>
    if isPlain s a && isPlain t ']' then some ([], rest)
    else (upTo a (t :: rest)).map fun (cs, rest) => (s.1 :: cs, rest)
  | _ => none

def repeatCount? (cs : List Char) : Option (Option Nat) :=
  if cs.isEmpty then some none
  else if cs.head? = some '0' then
    if cs.all fun c => (octalDigit? c).isSome then
      let n := cs.foldl (fun n d => 8 * n + (octalDigit? d).getD 0) 0
      some (if n = 0 then none else some n)
    else none
  else (natural? cs).map some

def repetition? : List Spelled → Option (Part × List Spelled)
  | (c, _) :: star :: rest =>
    if isPlain star '*' then
      let digits := rest.takeWhile fun s => !isPlain s ']'
      match rest.drop digits.length, repeatCount? (digits.map (·.1)) with
      | _ :: others, some count => some (.repeated c count, others)
      | _, _ => none
    else none
  | _ => none

def parts : Nat → List Spelled → Except (List Char) (List Part)
  | 0, _ | _, [] => .ok []
  | limit + 1, s :: rest => do
    match isPlain s '[', rest with
    | true, t :: inside =>
      if isPlain t ':' then
        if let some (name, others) := upTo ':' inside then
          let known := String.ofList name
          if (Regex.classOf? known).isNone then
            throw (octets "invalid character class " ++ ['\''] ++ name ++ ['\''])
          return .named known :: (← parts limit others)
      if isPlain t '=' then
        if let some (cs, others) := upTo '=' inside then
          match cs with
          | [c] => return .equal c :: (← parts limit others)
          | _ => throw (cs ++ octets ": equivalence class operand must be a single character")
      match repetition? rest with
      | some (p, others) => return p :: (← parts limit others)
      | none => element limit s rest
    | _, _ => element limit s rest
where
  element (limit : Nat) (s : Spelled) (rest : List Spelled) : Except (List Char) (List Part) :=
    match rest with
    | dash :: high :: others =>
      if isPlain dash '-' then
        if high.1 < s.1 then
          .error (octets "range-endpoints of '" ++ [s.1, '-', high.1]
            ++ octets "' are in reverse collating sequence order")
        else (parts limit others).map (.range s.1 high.1 :: ·)
      else (parts limit rest).map (.one s.1 :: ·)
    | _ => (parts limit rest).map (.one s.1 :: ·)

def allCharacters : List Char := (List.range 256).map Char.ofNat

/-- The characters of a part. What is repeated as often as it takes fills the given room. -/
def Part.characters (room : Nat) : Part → List Char
  | .one c | .equal c => [c]
  | .range low high =>
    (List.range (high.toNat + 1 - low.toNat)).map fun i => Char.ofNat (low.toNat + i)
  | .named name => allCharacters.filter ((Regex.classOf? name).getD fun _ => false)
  | .repeated c (some n) => List.replicate n c
  | .repeated c none => List.replicate room c

def expanded (length : Nat) (ps : List Part) : List Char :=
  let known := (ps.flatMap (Part.characters 0)).length
  ps.flatMap (Part.characters (length - known))

/-- Leaves out characters that repeat the one before. -/
def squeeze (p : Char → Bool) : List Char → List Char
  | a :: b :: rest => if a = b ∧ p a then squeeze p (b :: rest) else a :: squeeze p (b :: rest)
  | cs => cs

def isCaseClass (p : Part) : Bool := p = .named "upper" || p = .named "lower"

/-- What is wrong with two sets of which one replaces the other. -/
def fault? (truncates complements : Bool) (first second : List Part) : Option String :=
  if second.isEmpty && !truncates then
    some "when not truncating set1, string2 must be non-empty"
  else if second.any fun p => match p with
      | .named _ => !isCaseClass p
      | _ => false then
    some ("when translating, the only character classes that may appear in\n"
      ++ "string2 are 'upper' and 'lower'")
  else if second.any fun p => match p with
      | .equal _ => true
      | _ => false then
    some "[=c=] expressions may not appear in string2 when translating"
  else if second.any isCaseClass && (complements || !first.any isCaseClass) then
    some "misaligned [:upper:] and/or [:lower:] construct"
  else none

/-- What characters become. The last one of the second set stands for all that are missing. -/
def table (first second : List Char) : List Char :=
  let pairs := first.zip (second ++ List.replicate (first.length - second.length)
    (second.getLastD ' '))
  let last := pairs.reverse
  allCharacters.map fun c => (List.lookup c last).getD c

def apply (table : List Char) (text : List Char) : List Char :=
  let known := table.toArray
  text.map fun c => known.getD c.toNat c

def run (c : Call) : Act Nat := do
  let deletes := c.has "d"
  let squeezes := c.has "s"
  let complements := c.has "c" || c.has "C"
  match c.operands with
  | [] => c.misused 1 (octets "missing operand")
  | only :: more =>
    if more.isEmpty ∧ !deletes ∧ !squeezes ∨ more.isEmpty ∧ deletes ∧ squeezes then
      c.complain (octets "missing operand after " ++ c.cited only)
      say (octets (if deletes then
        "Two strings must be given when both deleting and squeezing repeats."
        else "Two strings must be given when translating."))
      c.sayHelp
      return 1
    if let some excess := more[if deletes ∧ !squeezes then 0 else 1]? then
      c.complain (octets "extra operand " ++ c.cited excess)
      if deletes ∧ !squeezes then
        say (octets "Only one string may be given when deleting without squeezing repeats.")
      c.sayHelp
      return 1
    let read (cs : List Char) : Except (List Char) (List Part) :=
      parts (cs.length + 1) (spelled (cs.length + 1) cs)
    match read only, (more.head?.map read) with
    | .error message, _ | _, some (.error message) =>
      c.complain message
      return 1
    | .ok first, second =>
      let second := match second with
        | some (.ok ps) => ps
        | _ => []
      let translates := !deletes && !more.isEmpty
      if translates then
        if let some message := fault? (c.has "t") complements first second then
          c.complain (octets message)
          return 1
      let named := expanded 0 first
      let source := if complements then allCharacters.filter fun d => !named.contains d else named
      let target := expanded source.length second
      let source := if c.has "t" then source.take target.length else source
      let (text, isCut) ← match ← readLines standardInput with
        | .ok found => pure found
        | .error e =>
          c.complain (octets ("read error: " ++ e.reason))
          return 1
      let members := (allCharacters.map fun d => source.contains d).toArray
      let isMember (d : Char) : Bool := members.getD d.toNat false
      let changed :=
        if deletes then text.filter fun d => !isMember d
        else if translates then apply (table source target) text
        else text
      let last := if more.isEmpty then isMember else fun d => target.contains d
      print (if squeezes then squeeze last changed else changed)
      if isCut then throw .starved
      return 0

def tool : Tool :=
  .ordered "cCdst" [flag "complement" "c", flag "delete" "d", flag "squeeze-repeats" "s",
    flag "truncate-set1" "t"] run

end TestBench.Tools.Translate
