import TestBench.Files.Change
import TestBench.Shell.Arithmetic
import TestBench.Shell.Session

/-!
Conditions, as the command that tests them reads them from its arguments. Where
an argument could be an operator or an operand, what follows it decides.
-/
namespace TestBench.Shell

abbrev Unclear := List Char

namespace Condition

def binaryOperators : List String :=
  ["=", "!=", "<", ">", "-eq", "-ne", "-gt", "-ge", "-lt", "-le", "-nt", "-ot", "-ef"]

def unaryOperators : List String :=
  ["-r", "-w", "-x", "-e", "-f", "-d", "-c", "-b", "-p", "-u", "-g", "-k", "-s", "-t", "-z", "-n",
    "-h", "-O", "-G", "-L", "-S"]

def isBinary (cs : List Char) : Bool := binaryOperators.contains (String.ofList cs)

/-- Whether the first argument, a unary operator, is an operand here. -/
def isOperand : List (List Char) → Bool
  | [_] => true
  | [_, _] => false
  | _ :: next :: _ => isBinary next
  | [] => true

def isUnary (arguments : List (List Char)) : Bool :=
  match arguments with
  | cs :: _ => unaryOperators.contains (String.ofList cs) && !isOperand arguments
  | [] => false

/-- The names of files are looked up, and their kinds compared. -/
def ofFile (files : Files) (operator : String) (path : List Char) : Bool :=
  if operator = "-h" ∨ operator = "-L" then
    match files.findEntry (pathOf path) with
    | .ok (.link _) => true
    | _ => false
  else match files.find (pathOf path) with
  | .error _ => false
  | .ok e =>
    let mode := files.modeOf e
    match operator, e with
    | "-f", .file _ | "-f", .program _ => true
    | "-d", .directory _ => true
    | "-c", .device _ => true
    | "-x", .directory _ => true
    | "-x", _ => Files.isExecutableMode mode
    | "-s", .file n => !(files.bytesOf n).isEmpty
    | "-s", .device _ => false
    | "-s", _ => true
    | "-u", _ => mode &&& 0o4000 != 0
    | "-g", _ => mode &&& 0o2000 != 0
    | "-k", _ => mode &&& 0o1000 != 0
    | "-e", _ | "-r", _ | "-w", _ | "-O", _ | "-G", _ => true
    | _, _ => false

/-- Whether one file has been changed after another one. -/
def isNewer (files : Files) (a b : List Char) : Bool :=
  match files.find (pathOf a), files.find (pathOf b) with
  | .ok first, .ok second => files.changedAt second < files.changedAt first
  | _, _ => false

/-- Whether two paths lead to the same file. -/
def isSame (files : Files) (a b : List Char) : Bool :=
  match files.locate (pathOf a), files.locate (pathOf b) with
  | .ok first, .ok second =>
    match files.entry? first, files.entry? second with
    | some (.file m), some (.file n) => m = n
    | some _, some _ => first = second
    | _, _ => false
  | _, _ => false

def ofUnary (files : Files) (operator : String) (operand : List Char) : Bool :=
  match operator with
  | "-n" => !operand.isEmpty
  | "-z" => operand.isEmpty
  | _ => ofFile files operator operand

def number (cs : List Char) : Except Unclear Int :=
  match Arithmetic.integer? cs with
  | some n => if cs.isEmpty then .error (octets "Illegal number: ") else .ok n
  | none => .error (octets "Illegal number: " ++ cs)

def isBefore (a b : List Char) : Bool := String.ofList a < String.ofList b

def ofBinary (files : Files) (operator : String) (a b : List Char) : Except Unclear Bool := do
  match operator with
  | "=" => return a = b
  | "!=" => return a ≠ b
  | "<" => return isBefore a b
  | ">" => return isBefore b a
  | "-ef" => return isSame files a b
  | "-nt" => return isNewer files a b
  | "-ot" => return isNewer files b a
  | _ =>
    let m ← number a
    let n ← number b
    return match operator with
      | "-eq" => m = n
      | "-ne" => m ≠ n
      | "-lt" => m < n
      | "-le" => m ≤ n
      | "-gt" => n < m
      | _ => n ≤ m

def unexpected (cs : List Char) : Except Unclear Bool :=
  .error (cs ++ octets ": unexpected operator")

variable (files : Files)

mutual

/-- A condition at the start of the arguments, and what follows it. -/
def disjunction : Nat → List (List Char) → Except Unclear (Bool × List (List Char))
  | 0, arguments => .ok (false, arguments)
  | limit + 1, arguments => do
    let (a, rest) ← conjunction limit arguments
    match rest with
    | ['-', 'o'] :: others =>
      let (b, rest) ← disjunction limit others
      return (a || b, rest)
    | _ => return (a, rest)

def conjunction : Nat → List (List Char) → Except Unclear (Bool × List (List Char))
  | 0, arguments => .ok (false, arguments)
  | limit + 1, arguments => do
    let (a, rest) ← negation limit arguments
    match rest with
    | ['-', 'a'] :: others =>
      let (b, rest) ← conjunction limit others
      return (a && b, rest)
    | _ => return (a, rest)

def negation : Nat → List (List Char) → Except Unclear (Bool × List (List Char))
  | 0, arguments => .ok (false, arguments)
  | limit + 1, arguments => do
    match arguments with
    | ['!'] :: next :: rest =>
      let (a, rest) ← negation limit (next :: rest)
      return (!a, rest)
    | _ => basic limit arguments

def basic : Nat → List (List Char) → Except Unclear (Bool × List (List Char))
  | 0, arguments => .ok (false, arguments)
  | limit + 1, arguments => do
    match arguments with
    | [] => return (false, [])
    | ['('] :: next :: rest =>
      if next = [')'] then return (false, rest)
      else
        let (a, rest) ← disjunction limit (next :: rest)
        match rest with
        | [')'] :: others => return (a, others)
        | _ => .error (octets "closing paren expected")
    | first :: rest =>
      if isUnary arguments then
        match rest with
        | operand :: others => return (ofUnary files (String.ofList first) operand, others)
        | [] => .error (first ++ octets ": argument expected")
      else match rest with
        | operator :: second :: others =>
          if isBinary operator then
            return (← ofBinary files (String.ofList operator) first second, others)
          else return (!first.isEmpty, rest)
        | [operator] =>
          if isBinary operator then .error (operator ++ octets ": argument expected")
          else return (!first.isEmpty, rest)
        | [] => return (!first.isEmpty, rest)

end

/-- The condition that all arguments make. If some are left, the one before them is wrong. -/
def whole (arguments : List (List Char)) : Except Unclear Bool := do
  match ← disjunction files (4 * arguments.length + 8) arguments with
  | (a, []) => return a
  | (_, rest) => unexpected ((arguments[arguments.length - rest.length - 1]?).getD [])

/-- Whether a condition holds. Few arguments are read by their number. -/
def holds : List (List Char) → Except Unclear Bool
  | [] => .ok false
  | [a, operator, b] =>
    if isBinary operator then ofBinary files (String.ofList operator) a b
    else if a = ['('] ∧ b = [')'] then .ok (!operator.isEmpty)
    else if a = ['!'] then (holds [operator, b]).map (!·)
    else whole files [a, operator, b]
  | ['!'] :: b :: c :: [d] => (holds [b, c, d]).map (!·)
  | arguments => whole files arguments

end Condition

end TestBench.Shell
