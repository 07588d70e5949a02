import TestBench.Regex.Written
import TestBench.Tools.Text

/-!
Expressions over numbers and texts, with one argument for each operand and each
operator. A part whose value cannot matter is read but not computed.
-/
namespace TestBench.Tools.Expression

open Shell

/-- What is left of the arguments, and the argument that was taken last. -/
structure Reader where
  rest : List (List Char)
  previous : List Char
  isWide : Bool

abbrev Reading (α : Type) := StateT Reader (Except (List Char)) α

/-- Whether a value counts as false: an empty text, or a zero. -/
def isNull (value : List Char) : Bool :=
  let digits := if value.head? = some '-' then value.tail else value
  value.isEmpty || (!digits.isEmpty && digits.all (· == '0'))

def number? (value : List Char) : Option Int :=
  match value with
  | '-' :: digits => (natural? digits).map fun n => -(n : Int)
  | _ => (natural? value).map fun n => (n : Int)

def ofNumber (n : Int) : List Char := (toString n).toList

def ofTruth (b : Bool) : List Char := if b then ['1'] else ['0']

namespace Reading

def cite (cs : List Char) : Reading (List Char) := do
  return Showing.citation (← get).isWide cs

def refuse {α : Type} (before : String) (cs : List Char) : Reading α := do
  throw (octets before ++ (← cite cs))

/-- Takes an argument if it is the next one. -/
def accept (s : String) : Reading Bool := do
  let r ← get
  match r.rest with
  | a :: rest =>
    if a = octets s then
      set { r with rest := rest, previous := a }
      return true
    else return false
  | [] => return false

def acceptAny (choices : List String) : Reading (Option String) := do
  for s in choices do
    if ← accept s then return some s
  return none

def requireMore : Reading Unit := do
  let r ← get
  if r.rest.isEmpty then refuse "syntax error: missing argument after " r.previous

def take : Reading (List Char) := do
  let r ← get
  match r.rest with
  | a :: rest =>
    set { r with rest := rest, previous := a }
    return a
  | [] => return []

def wide (cs : List Char) : Reading (List Char) := return Octets.widen (← get).isWide cs

/-- What an expression finds at the start of a text: its first group, or how long it is. -/
def matched (text pattern : List Char) : Reading (List Char) := do
  match Regex.parse ⟨false, false, false⟩ (← wide pattern) with
  | .error f => throw (octets f.message)
  | .ok (r, groups) =>
    let found := r.matchAt? false (Point.start (← wide text))
    let isWide := (← get).isWide
    return match found with
      | some m => if 0 < groups then Octets.narrow isWide (m.group 1)
        else digitsText m.text.length
      | none => if 0 < groups then [] else ['0']

def arithmetic (operator : String) (a b : List Char) : Reading (List Char) := do
  match number? a, number? b with
  | some m, some n =>
    match operator with
    | "+" => return ofNumber (m + n)
    | "-" => return ofNumber (m - n)
    | "*" => return ofNumber (m * n)
    | _ =>
      if n = 0 then throw (octets "division by zero")
      return ofNumber (if operator = "/" then m.tdiv n else m.tmod n)
  | _, _ => throw (octets "non-integer argument")

def compare (operator : String) (a b : List Char) : List Char :=
  let order := match number? a, number? b with
    | some m, some n => compareOfLessAndEq m n
    | _, _ => compareOfLessAndEq (String.ofList a) (String.ofList b)
  ofTruth (match operator, order with
    | "<", o => o == .lt
    | "<=", o => o != .gt
    | "!=", o => o != .eq
    | ">=", o => o != .lt
    | ">", o => o == .gt
    | _, o => o == .eq)

/-- Several operands of one rank, with operators between them. -/
def chain (operators : List String) (operand : Reading (List Char))
    (combine : String → List Char → List Char → Reading (List Char)) :
    Nat → List Char → Reading (List Char)
  | 0, a => return a
  | limit + 1, a => do
    match ← acceptAny operators with
    | none => return a
    | some operator =>
      let b ← operand
      chain operators operand combine limit (← combine operator a b)

def whenMeant (isMeant : Bool) (f : List Char → List Char → Reading (List Char))
    (a b : List Char) : Reading (List Char) :=
  if isMeant then f a b else return a

mutual

def disjunction : Nat → Bool → Reading (List Char)
  | 0, _ => return []
  | limit + 1, isMeant => do
    let a ← conjunction limit isMeant
    alternatives limit isMeant a

def alternatives : Nat → Bool → List Char → Reading (List Char)
  | 0, _, a => return a
  | limit + 1, isMeant, a => do
    if ← accept "|" then
      let b ← conjunction limit (isMeant && isNull a)
      alternatives limit isMeant (if !isNull a then a else if isNull b then ['0'] else b)
    else return a

def conjunction : Nat → Bool → Reading (List Char)
  | 0, _ => return []
  | limit + 1, isMeant => do
    let a ← comparison limit isMeant
    requirements limit isMeant a

def requirements : Nat → Bool → List Char → Reading (List Char)
  | 0, _, a => return a
  | limit + 1, isMeant, a => do
    if ← accept "&" then
      let b ← comparison limit (isMeant && !isNull a)
      requirements limit isMeant (if isNull a || isNull b then ['0'] else a)
    else return a

def comparison : Nat → Bool → Reading (List Char)
  | 0, _ => return []
  | limit + 1, isMeant => do
    let a ← sum limit isMeant
    chain ["<=", "<", "==", "=", "!=", ">=", ">"] (sum limit isMeant)
      (fun o => whenMeant isMeant fun a b => return compare o a b) limit a

def sum : Nat → Bool → Reading (List Char)
  | 0, _ => return []
  | limit + 1, isMeant => do
    let a ← product limit isMeant
    chain ["+", "-"] (product limit isMeant) (fun o => whenMeant isMeant (arithmetic o)) limit a

def product : Nat → Bool → Reading (List Char)
  | 0, _ => return []
  | limit + 1, isMeant => do
    let a ← matching limit isMeant
    chain ["*", "/", "%"] (matching limit isMeant)
      (fun o => whenMeant isMeant (arithmetic o)) limit a

def matching : Nat → Bool → Reading (List Char)
  | 0, _ => return []
  | limit + 1, isMeant => do
    let a ← term limit isMeant
    chain [":"] (term limit isMeant) (fun _ => whenMeant isMeant matched) limit a

/-- A text, or what a word makes of texts. -/
def term : Nat → Bool → Reading (List Char)
  | 0, _ => return []
  | limit + 1, isMeant => do
    requireMore
    match ← acceptAny ["+", "length", "match", "index", "substr"] with
    | some "+" =>
      requireMore
      take
    | some "length" => return digitsText (← wide (← term limit isMeant)).length
    | some "match" =>
      let a ← term limit isMeant
      let b ← term limit isMeant
      whenMeant isMeant matched a b
    | some "index" =>
      let text ← wide (← term limit isMeant)
      let signs ← wide (← term limit isMeant)
      return digitsText (((text.findIdx? signs.contains).map (· + 1)).getD 0)
    | some _ =>
      let text ← wide (← term limit isMeant)
      let start ← term limit isMeant
      let count ← term limit isMeant
      let isWide := (← get).isWide
      return match number? start, number? count with
        | some m, some n =>
          if m ≤ 0 ∨ n ≤ 0 then []
          else Octets.narrow isWide ((text.drop (m.toNat - 1)).take n.toNat)
        | _, _ => []
    | none => primary limit isMeant

def primary : Nat → Bool → Reading (List Char)
  | 0, _ => return []
  | limit + 1, isMeant => do
    requireMore
    if ← accept "(" then
      let a ← disjunction limit isMeant
      let r ← get
      match r.rest with
      | [] => refuse "syntax error: expecting ')' after " r.previous
      | next :: _ =>
        if ← accept ")" then return a
        refuse "syntax error: expecting ')' instead of " next
    else if ← accept ")" then throw (octets "syntax error: unexpected ')'")
    else take

end

end Reading

def value (isWide : Bool) (arguments : List (List Char)) : Except (List Char) (List Char) := do
  let act : Reading (List Char) := do
    let a ← Reading.disjunction (16 * arguments.length + 16) true
    match (← get).rest with
    | [] => return a
    | excess :: _ => Reading.refuse "syntax error: unexpected argument " excess
  return (← act.run ⟨arguments, [], isWide⟩).1

def invalid : Nat := 2

/-- Prints the value of an expression, and tells whether it counts as true. -/
def run (isWide : Bool) (name : List Char) (arguments : List (List Char)) : Act Nat := do
  let c : Call := ⟨name, [], [], isWide⟩
  let arguments := match arguments with
    | ['-', '-'] :: rest => rest
    | _ => arguments
  if arguments.isEmpty then return ← c.misused invalid (octets "missing operand")
  match value isWide arguments with
  | .error message =>
    c.complain message
    return invalid
  | .ok found =>
    printLine found
    return if isNull found then 1 else 0

end TestBench.Tools.Expression
