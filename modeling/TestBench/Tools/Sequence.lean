import TestBench.Tools.Text

/-!
Sequences of numbers.
-/
namespace TestBench.Tools.Sequence

open Shell

def limit : Nat := 1 <<< 40

def run (c : Call) : Act Nat := do
  let found := c.operands.map fun a => (a, integer? a)
  if let some (a, _) := found.find? (·.2.isNone) then
    return ← c.misused 1 (octets "invalid floating point argument: " ++ c.cited a)
  let (first, step, last) : Int × Int × Int := match found.filterMap (·.2) with
    | [last] => (1, 1, last)
    | [first, last] => (first, 1, last)
    | first :: step :: last :: _ => (first, step, last)
    | [] => (1, 1, 1)
  if step = 0 then
    return ← c.misused 1 (octets "invalid Zero increment value: " ++ c.cited (c.operands.getD 1 []))
  let count := if (0 < step ∧ last < first) ∨ (step < 0 ∧ first < last) then 0
    else ((last - first).natAbs / step.natAbs) + 1
  let size (n : Int) : Nat := (toString n).length
  let width :=
    if c.has "w" then max (size first) (size (first + (count - 1 : Nat) * step)) else 0
  let shown (n : Int) : List Char :=
    (if n < 0 then ['-'] else []) ++ List.replicate (width - size n) '0' ++ digitsText n.natAbs
  emit shown ((c.value? "s").getD ['\n']) first step last limit true
  return 0
where
  emit (shown : Int → List Char) (separator : List Char) (n step last : Int) :
      Nat → Bool → Act Unit
    | 0, _ => return ()
    | limit + 1, isFirst => do
      if (0 ≤ step ∧ last < n) ∨ (step < 0 ∧ n < last) then
        unless isFirst do print ['\n']
      else
        print ((if isFirst then [] else separator) ++ shown n)
        emit shown separator (n + step) step last limit false

def tool : Tool :=
  { Tool.ordered "s:w" [flag "equal-width" "w", valued "separator" "s"]
      (needs 1 (atMost 3 run)) with dashed := .operand }

end TestBench.Tools.Sequence
