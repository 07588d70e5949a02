import TestBench.Shell.Command

/-!
Expressions of whole numbers. Numbers have 64 bits, and what does not fit wraps
around. Variables count as the numbers that their values spell.
-/
namespace TestBench.Shell

inductive Miscalculation where
  | misses (what : String)
  | zeroDivisor
  | notNumber (text : List Char)
  deriving DecidableEq, Repr

/-- Expressions as far as they can be read. What is wrong behind an expression counts after what is
wrong in it. -/
inductive Expression where
  | number (n : Int)
  | reference (name : String)
  | unary (sign : String) (e : Expression)
  | binary (sign : String) (a b : Expression)
  | choice (condition yes no : Expression)
  /-- A sign combines the value that a variable has with the new one. -/
  | assign (name : String) (sign : Option String) (e : Expression)
  | ill (what : Miscalculation)
  | endsBadly (e : Expression) (what : Miscalculation)
  deriving DecidableEq, Repr

namespace Arithmetic

inductive Token where
  | number (n : Int)
  | name (text : String)
  | sign (spelling : String)
  deriving DecidableEq, Repr

/-- The signs, longer ones before those that they begin with. -/
def signs : List String :=
  ["<<=", ">>=", "==", "!=", "<=", ">=", "&&", "||", "<<", ">>", "+=", "-=", "*=", "/=", "%=",
    "&=", "|=", "^=", "+", "-", "*", "/", "%", "<", ">", "!", "~", "&", "|", "^", "?", ":", "(",
    ")", "="]

def modulus : Nat := 18446744073709551616

/-- The number of 64 bits that agrees with a number in all of these. -/
def wrap (n : Int) : Int := Int.bmod n modulus

def largest : Int := 9223372036854775807

/-- The number of 64 bits that comes next to a number. -/
def clamp (n : Int) : Int := max (-largest - 1) (min largest n)

def digit? (base : Nat) (c : Char) : Option Nat :=
  let value :=
    if c.isDigit then c.toNat - '0'.toNat
    else if 'a' ≤ c.toLower ∧ c.toLower ≤ 'f' then c.toLower.toNat - 'a'.toNat + 10
    else base
  if value < base then some value else none

def digits (base : Nat) (cs : List Char) : Option Nat :=
  if cs.isEmpty then none
  else (cs.mapM (digit? base)).map (·.foldl (fun n d => base * n + d) 0)

/-- How many characters spell a number at the start of a text. -/
def numberLength (cs : List Char) : Nat :=
  let run (base : Nat) (cs : List Char) : Nat :=
    (cs.takeWhile fun c => (digit? base c).isSome).length
  match cs with
  | '0' :: x :: rest =>
    if (x = 'x' ∨ x = 'X') ∧ 0 < run 16 rest then run 16 rest + 2 else run 8 (x :: rest) + 1
  | _ => run 10 cs

/-- The number that digits spell. What they begin with says how. -/
def natural? (cs : List Char) : Option Nat :=
  match cs with
  | '0' :: 'x' :: rest | '0' :: 'X' :: rest => digits 16 rest
  | '0' :: rest => if rest.isEmpty then some 0 else digits 8 rest
  | _ => digits 10 cs

def isBlank (c : Char) : Bool := c == ' ' || (9 ≤ c.toNat && c.toNat ≤ 13)

/-- The number that a text spells, with an optional sign. Nothing counts as zero. -/
def integer? (cs : List Char) : Option Int :=
  let bare := ((cs.dropWhile isBlank).reverse.dropWhile isBlank).reverse
  match bare with
  | [] => some 0
  | '-' :: rest => (natural? rest).map fun n => clamp (-n)
  | '+' :: rest => (natural? rest).map fun n => clamp n
  | _ => (natural? bare).map fun n => clamp n

def tokens : Nat → List Char → List Token
  | 0, _ | _, [] => []
  | limit + 1, c :: rest =>
    if isBlank c then tokens limit rest
    else if c.isDigit then
      let size := numberLength (c :: rest)
      let n := (natural? ((c :: rest).take size)).getD 0
      .number (clamp n) :: tokens limit ((c :: rest).drop size)
    else if isNameStart c then
      let text := (c :: rest).takeWhile isNameCharacter
      .name (String.ofList text) :: tokens limit ((c :: rest).drop text.length)
    else match signs.find? fun s => s.toList.isPrefixOf (c :: rest) with
      | some s => .sign s :: tokens limit ((c :: rest).drop s.length)
      | none => .sign (String.singleton c) :: tokens limit rest

/-- The signs between two operands, those that bind least first. -/
def levels : List (List String) :=
  [["||"], ["&&"], ["|"], ["^"], ["&"], ["==", "!="], ["<=", ">=", "<", ">"], ["<<", ">>"],
    ["+", "-"], ["*", "/", "%"]]

def prefixes : List String := ["+", "-", "!", "~"]

/-- The signs that assign, each with the one that combines. -/
def assigning : List (String × Option String) :=
  [("=", none), ("+=", some "+"), ("-=", some "-"), ("*=", some "*"), ("/=", some "/"),
    ("%=", some "%"), ("&=", some "&"), ("|=", some "|"), ("^=", some "^"), ("<<=", some "<<"),
    (">>=", some ">>")]

/-- What has been read, and what is left. Nothing is left behind what is wrong. -/
abbrev Parsed := Expression × List Token

def noPrimary : Parsed := (.ill (.misses "expecting primary"), [])

mutual

def expression : Nat → List Token → Parsed
  | 0, _ => noPrimary
  | limit + 1, ts =>
    match ts with
    | .name n :: .sign s :: rest =>
      match List.lookup s assigning with
      | some combined =>
        let (e, rest) := expression limit rest
        (.assign n combined e, rest)
      | none => choice limit ts
    | _ => choice limit ts

def choice : Nat → List Token → Parsed
  | 0, _ => noPrimary
  | limit + 1, ts =>
    match binary limit levels ts with
    | (condition, .sign "?" :: rest) =>
      match expression limit rest with
      | (yes, .sign ":" :: rest) =>
        let (no, rest) := choice limit rest
        (.choice condition yes no, rest)
      | (yes, _) =>
        let last := Expression.endsBadly yes (.misses "expecting ':'")
        (.choice condition last (.number 0), [])
    | other => other

def binary : Nat → List (List String) → List Token → Parsed
  | 0, _, _ => noPrimary
  | limit + 1, [], ts => unary limit ts
  | limit + 1, level :: tighter, ts =>
    let (first, rest) := binary limit tighter ts
    operands limit level tighter first rest

def operands : Nat → List String → List (List String) → Expression → List Token → Parsed
  | 0, _, _, first, rest => (first, rest)
  | limit + 1, level, tighter, first, rest =>
    match rest with
    | .sign s :: others =>
      if level.contains s then
        let (second, rest) := binary limit tighter others
        operands limit level tighter (.binary s first second) rest
      else (first, rest)
    | _ => (first, rest)

def unary : Nat → List Token → Parsed
  | 0, _ => noPrimary
  | limit + 1, ts =>
    match ts with
    | .number n :: rest => (.number n, rest)
    | .name n :: rest => (.reference n, rest)
    | .sign "(" :: rest =>
      match expression limit rest with
      | (e, .sign ")" :: rest) => (e, rest)
      | (e, _) => (.endsBadly e (.misses "expecting ')'"), [])
    | .sign s :: rest =>
      if prefixes.contains s then
        let (e, rest) := unary limit rest
        (.unary s e, rest)
      else noPrimary
    | [] => noPrimary

end

def parse (cs : List Char) : Expression :=
  let ts := tokens (cs.length + 1) cs
  match expression (16 * ts.length + 16) ts with
  | (e, []) => e
  | (e, _) => .endsBadly e (.misses "expecting EOF")

/-- What is wrong with how an expression is written. -/
def fault? : Expression → Option Miscalculation
  | .number _ | .reference _ => none
  | .unary _ e | .assign _ _ e => fault? e
  | .binary _ a b => (fault? a).or (fault? b)
  | .choice a b c => ((fault? a).or (fault? b)).or (fault? c)
  | .ill what => some what
  | .endsBadly e what => (fault? e).or (some what)

/-- Passes over an expression whose value is not needed. -/
def pass (e : Expression) : Except Miscalculation Unit :=
  match fault? e with
  | some what => .error what
  | none => .ok ()

def ofTruth (b : Bool) : Int := if b then 1 else 0

def applyUnary (sign : String) (n : Int) : Int :=
  match sign with
  | "-" => wrap (-n)
  | "!" => ofTruth (n = 0)
  | "~" => wrap (-n - 1)
  | _ => n

/-- An operation on the bits of two numbers. -/
def bitwise (f : Nat → Nat → Nat) (a b : Int) : Int :=
  wrap (f (a % (modulus : Int)).toNat (b % (modulus : Int)).toNat)

def apply (sign : String) (a b : Int) : Except Miscalculation Int :=
  match sign with
  | "+" => .ok (wrap (a + b))
  | "-" => .ok (wrap (a - b))
  | "*" => .ok (wrap (a * b))
  | "/" => if b = 0 then .error .zeroDivisor else .ok (wrap (Int.tdiv a b))
  | "%" => if b = 0 then .error .zeroDivisor else .ok (wrap (Int.tmod a b))
  | "<<" => .ok (wrap (a * ((1 <<< (b % 64).toNat : Nat) : Int)))
  | ">>" => .ok (Int.fdiv a ((1 <<< (b % 64).toNat : Nat) : Int))
  | "==" => .ok (ofTruth (a = b))
  | "!=" => .ok (ofTruth (a ≠ b))
  | "<" => .ok (ofTruth (a < b))
  | "<=" => .ok (ofTruth (a ≤ b))
  | ">" => .ok (ofTruth (a > b))
  | ">=" => .ok (ofTruth (a ≥ b))
  | "&" => .ok (bitwise Nat.land a b)
  | "|" => .ok (bitwise Nat.lor a b)
  | "^" => .ok (bitwise Nat.xor a b)
  | _ => .ok b

/-- The values of variables: those that an expression has assigned come before the others. -/
abbrev Assigned := List (String × Int)

def valueOf (lookup : String → List Char) (assigned : Assigned) (name : String) :
    Except Miscalculation Int :=
  match List.lookup name assigned with
  | some n => .ok n
  | none => match integer? (lookup name) with
    | some n => .ok n
    | none => .error (.notNumber (lookup name))

/-- The value of an expression and what it has assigned, the last one first. -/
def evaluate (lookup : String → List Char) :
    Expression → Assigned → Except Miscalculation (Int × Assigned)
  | .number n, done => .ok (n, done)
  | .reference name, done => (valueOf lookup done name).map (·, done)
  | .unary sign e, done => do
    let (n, done) ← evaluate lookup e done
    return (applyUnary sign n, done)
  | .binary sign a b, done => do
    let (m, done) ← evaluate lookup a done
    if sign = "&&" ∧ m = 0 then
      pass b
      return (0, done)
    else if sign = "||" ∧ m ≠ 0 then
      pass b
      return (1, done)
    else
      let (n, done) ← evaluate lookup b done
      if sign = "&&" ∨ sign = "||" then return (ofTruth (n ≠ 0), done)
      else return (← apply sign m n, done)
  | .choice condition yes no, done => do
    let (m, done) ← evaluate lookup condition done
    if m ≠ 0 then
      let found ← evaluate lookup yes done
      pass no
      return found
    else
      pass yes
      evaluate lookup no done
  | .assign name sign e, done => do
    let (n, done) ← evaluate lookup e done
    let n ← match sign with
      | none => .ok n
      | some s => apply s (← valueOf lookup done name) n
    return (n, (name, n) :: done)
  | .ill what, _ => .error what
  | .endsBadly e what, done => do
    let _ ← evaluate lookup e done
    .error what

end Arithmetic

/-- What is said about an expression that has no value. -/
def Miscalculation.message (expression : List Char) : Miscalculation → List Char
  | .misses what =>
    "arithmetic expression: ".toList ++ what.toList ++ ": \"".toList ++ expression ++ ['"']
  | .zeroDivisor =>
    "arithmetic expression: division by zero: \"".toList ++ expression ++ ['"']
  | .notNumber text => "Illegal number: ".toList ++ text

end TestBench.Shell
