import TestBench.Machine.Value

/-!
Operators on values and the built-in assertions. Integers are exact or fault,
texts take part in addition only, and any two values can be compared for
equality.
-/
namespace TestBench.Machine

def applyUnary : UnaryOp → Value → Except Fault Value
  | .neg, .integer n =>
    match n.neg with
    | some r => .ok (.integer r)
    | none => .error (.negationOverflow n)
  | .neg, v => .error (.typeMismatch (.negation v))
  | .not, .boolean b => .ok (.boolean !b)
  | .not, v => .error (.typeMismatch (.complement v))

/-- The result if it is a word. -/
def exact (left : Word) (op : BinaryOp) (right : Word) (result : Option Word) :
    Except Fault Value :=
  match result with
  | some r => .ok (.integer r)
  | none => .error (.overflow left op right)

def applyToIntegers (op : BinaryOp) (a b : Word) : Except Fault Value :=
  match op with
  | .add => exact a op b (a.add b)
  | .sub => exact a op b (a.sub b)
  | .mul => exact a op b (a.mul b)
  | .div => if b.val = 0 then .error .divideByZero else exact a op b (a.div b)
  | .mod => if b.val = 0 then .error .divideByZero else exact a op b (a.mod b)
  | .lt => .ok (.boolean (a.val < b.val))
  | .ltEq => .ok (.boolean (a.val ≤ b.val))
  | .gt => .ok (.boolean (b.val < a.val))
  | .gtEq => .ok (.boolean (b.val ≤ a.val))
  | .eq => .ok (.boolean (a.val = b.val))
  | .notEq => .ok (.boolean (a.val ≠ b.val))
  | .and | .or => .error (.typeMismatch (.operator op))

def isText : Value → Bool
  | .text _ => true
  | _ => false

/-- An operator on two values that are both there; the two that may leave out the right operand
are not among these. -/
def applyBinary (op : BinaryOp) (left right : Value) : Except Fault Value :=
  match op with
  | .eq => .ok (.boolean (left = right))
  | .notEq => .ok (.boolean (left ≠ right))
  | _ =>
    if op = .add ∧ (isText left ∨ isText right) then
      .ok (.text (left.display ++ right.display))
    else match left, right with
      | .integer a, .integer b => applyToIntegers op a b
      | _, _ => .error (.typeMismatch (.operands op left right))

/-- The argument at a position; one that is missing is nothing. -/
def argument (args : List Value) (index : Nat) : Value := args.getD index .nothing

def runBuiltin (b : Builtin) (args : List Value) : Except Fault Value :=
  let first := argument args 0
  let second := argument args 1
  match b with
  | .assert =>
    match first with
    | .boolean true => .ok .nothing
    | .boolean false => .error (.assertion "Expected: true but was: false")
    | v => .error (.typeMismatch (.assertion v))
  | .assertEq =>
    if first = second then .ok .nothing
    else .error (.assertion ("Expected: " ++ first.render ++ " but was: " ++ second.render))
  | .assertNe =>
    if first ≠ second then .ok .nothing
    else .error (.assertion
      ("Expected: not equal to " ++ first.render ++ " but was: " ++ second.render))
  | .fail => .error (.assertion first.display)

end TestBench.Machine
