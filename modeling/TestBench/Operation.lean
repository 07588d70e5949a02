import TestBench.Vocabulary
import TestBench.Word

/-!
Constants and operations, shared by source programs and compiled ones.
-/
namespace TestBench

inductive Constant where
  | integer (value : Word)
  | boolean (value : Bool)
  | text (value : String)
  deriving DecidableEq, Repr

inductive UnaryOp where
  | neg | not
  deriving DecidableEq, Repr

inductive BinaryOp where
  | add | sub | mul | div | mod
  | eq | notEq | lt | ltEq | gt | gtEq
  | and | or
  deriving DecidableEq, Repr

namespace UnaryOp

def all : List UnaryOp := [.neg, .not]

def sign : UnaryOp → Operator
  | .neg => .minus
  | .not => .bang

def ofSign? (sign : Operator) : Option UnaryOp := all.find? (·.sign == sign)

end UnaryOp

namespace BinaryOp

def all : List BinaryOp :=
  [.add, .sub, .mul, .div, .mod, .eq, .notEq, .lt, .ltEq, .gt, .gtEq, .and, .or]

def sign : BinaryOp → Operator
  | .add => .plus
  | .sub => .minus
  | .mul => .star
  | .div => .slash
  | .mod => .percent
  | .eq => .eqEq
  | .notEq => .notEq
  | .lt => .lt
  | .ltEq => .ltEq
  | .gt => .gt
  | .gtEq => .gtEq
  | .and => .andAnd
  | .or => .orOr

def ofSign? (sign : Operator) : Option BinaryOp := all.find? (·.sign == sign)

def symbol (op : BinaryOp) : String := op.sign.spelling

/-- How tightly the operator binds. -/
def precedence (op : BinaryOp) : Nat := op.sign.precedence?.getD 0

end BinaryOp

end TestBench
