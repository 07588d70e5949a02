import TestBench.Tools.Text

/-!
The program that lets time pass. Nothing happens meanwhile but that jobs of the
shell go on whose time has come.
-/
namespace TestBench.Tools.Pausing

open Shell

/-- A time span in microseconds, with a letter for its unit. -/
def span? (cs : List Char) : Option (Option Nat) :=
  let unit? (c : Char) : Option Nat := match c with
    | 's' => some 1
    | 'm' => some 60
    | 'h' => some 3600
    | 'd' => some 86400
    | _ => none
  let (digits, unit) := match cs.getLast?.bind unit? with
    | some n => (cs.dropLast, n)
    | none => (cs, 1)
  if ["inf", "infinity"].contains (String.ofList (digits.map Char.toLower)) then some none
  else
    let whole := digits.takeWhile (·.isDigit)
    let rest := digits.drop whole.length
    let fraction := rest.drop 1
    if (whole.isEmpty ∧ fraction.isEmpty) ∨ !(rest.isEmpty ∨ rest.head? = some '.')
        ∨ !fraction.all (·.isDigit) then none
    else
      let six := (fraction ++ List.replicate 6 '0').take 6
      some (some ((decimal whole * secondParts + decimal six) * unit))

/-- Lets time pass, or stops with everything if there is not enough. -/
def sleepFor (span : Option Nat) : Act Unit := do
  match span, (← get).deadline with
  | none, none => throw .never
  | none, some d =>
    let _ ← pass d
    throw (.killed Signal.terminate)
  | some n, _ =>
    unless ← pass n do throw (.killed Signal.terminate)

def sleep (c : Call) : Act Nat := do
  let found := c.operands.map fun a => (a, span? a)
  let ill := found.filter (·.2.isNone)
  ill.forM fun (a, _) => c.complain (octets "invalid time interval " ++ c.cited a)
  unless ill.isEmpty do
    c.sayHelp
    return 1
  let spans := found.filterMap (·.2)
  sleepFor (if spans.any (·.isNone) then none else some (total (spans.filterMap id)))
  return 0

def tool : Tool := .of "" [] (needs 1 sleep)

end TestBench.Tools.Pausing
