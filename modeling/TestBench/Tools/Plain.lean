import TestBench.Shell.Builtins
import TestBench.Tools.Text

/-!
Programs that take all of their arguments as they are: those that print their
arguments, and the conditions.
-/
namespace TestBench.Tools.Plain

open Shell

/-- A name and arguments, and what comes of them. -/
abbrev Act := List Char → List (List Char) → Shell.Act Nat

def calledBy (name : List Char) : Shell.Act Call := do
  return ⟨name, [], [], isWide (← get).shell⟩

/-- Says that something could not be written, if this is so. -/
def settle (name : List Char) (status : Nat) : Shell.Act Nat := do
  match ← takeTrouble with
  | none => return status
  | some e =>
    say (name ++ octets (": write error: " ++ e.reason))
    return 1

def echo : Act := fun name arguments => do
  print (Builtin.plainEcho arguments)
  settle name 0

/-- Arguments that the format has no place for are left out. -/
def printf : Act := fun name arguments => do
  let c ← calledBy name
  let arguments := match arguments with
    | ['-', '-'] :: rest => rest
    | _ => arguments
  match arguments with
  | [] => c.misused 1 (octets "missing operand")
  | pattern :: rest =>
    let last := format pattern rest
    print last.text
    last.faults.forM c.complain
    if let some message := last.error then
      c.complain message
      return 1
    if !(formatParts (pattern.length + 1) pattern).any (·.isArgument) then
      if let excess :: _ := rest then
        c.complain (octets "warning: ignoring excess arguments, starting with " ++ c.cited excess)
    settle name (ofTruth last.faults.isEmpty)

def illegalNumber : List Char := octets "Illegal number: "

/-- Arguments without an operator among them are the most usual mistake. -/
def test : Act := fun name arguments => do
  let c ← calledBy name
  match Condition.holds (← get).view arguments with
  | .ok b => return ofTruth b
  | .error message =>
    c.complain (match arguments with
      | [_, middle, _] =>
        if illegalNumber.isPrefixOf message then
          octets "invalid integer " ++ c.cited (message.drop illegalNumber.length)
        else c.cited middle ++ octets ": binary operator expected"
      | [first, _] => c.cited first ++ octets ": unary operator expected"
      | _ :: second :: _ :: _ :: _ => octets "extra argument " ++ c.cited second
      | _ => message)
    return 2

def bracket : Act := fun name arguments => do
  if arguments.getLast? = some [']'] then test name arguments.dropLast
  else
    let c ← calledBy name
    c.complain (octets "missing " ++ c.cited [']'])
    return 2

end TestBench.Tools.Plain
