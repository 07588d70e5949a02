import TestBench.Operation

/-!
The values that programs compute with, and the faults that end a computation.
A fault in a method of another instance is wrapped in the name of that method;
what lies inside all wrappers is its root.
-/
namespace TestBench.Machine

inductive Value where
  | integer (value : Word)
  | boolean (value : Bool)
  | text (value : String)
  | nothing
  deriving DecidableEq, Repr

namespace Value

def ofConstant : Constant → Value
  | .integer n => .integer n
  | .boolean b => .boolean b
  | .text s => .text s

def kind : Value → String
  | .integer _ => "int"
  | .boolean _ => "bool"
  | .text _ => "string"
  | .nothing => "unit"

def display : Value → String
  | .integer n => n.toDecimal
  | .boolean true => "true"
  | .boolean false => "false"
  | .text s => s
  | .nothing => "()"

/-- As it is displayed, but texts in quotes. -/
def render : Value → String
  | .text s => "\"" ++ s ++ "\""
  | v => v.display

end Value

/-- What does not fit where it is used. -/
inductive Mismatch where
  | slot (index : Nat)
  | condition (found : Value)
  | negation (found : Value)
  | complement (found : Value)
  | operands (op : BinaryOp) (left right : Value)
  | operator (op : BinaryOp)
  | assertion (found : Value)
  deriving DecidableEq, Repr

namespace Mismatch

def message : Mismatch → String
  | .slot index => "slot " ++ toString index ++ " out of range"
  | .condition found => "condition must be bool, found " ++ found.kind
  | .negation found => "cannot negate " ++ found.kind
  | .complement found => "cannot apply '!' to " ++ found.kind
  | .operands op left right =>
    "cannot apply '" ++ op.symbol ++ "' to " ++ left.kind ++ " and " ++ right.kind
  | .operator op => "unexpected operator '" ++ op.symbol ++ "'"
  | .assertion found => "assert expects bool, found " ++ found.kind

end Mismatch

inductive Fault where
  | assertion (message : String)
  | typeMismatch (what : Mismatch)
  | overflow (left : Word) (op : BinaryOp) (right : Word)
  | negationOverflow (value : Word)
  | divideByZero
  | callDepthExceeded (limit : Nat)
  | unitNotLoaded (unit : String)
  | typeNotFound (typeName : String)
  | methodNotFound (typeName method : String)
  | arity (method : String) (expected found : Nat)
  | invocation (target : String) (cause : Fault)
  deriving DecidableEq, Repr

namespace Fault

def message : Fault → String
  | .assertion message => message
  | .typeMismatch what => "type mismatch: " ++ what.message
  | .overflow left op right =>
    "arithmetic overflow: " ++ left.toDecimal ++ " " ++ op.symbol ++ " " ++ right.toDecimal
  | .negationOverflow value => "arithmetic overflow: -(" ++ value.toDecimal ++ ")"
  | .divideByZero => "attempted to divide by zero"
  | .callDepthExceeded limit => "maximum call depth of " ++ toString limit ++ " exceeded"
  | .unitNotLoaded unit => "unit '" ++ unit ++ "' is not loaded"
  | .typeNotFound typeName => "type '" ++ typeName ++ "' not found"
  | .methodNotFound typeName method =>
    "method '" ++ method ++ "' not found on type '" ++ typeName ++ "'"
  | .arity method expected found =>
    "'" ++ method ++ "' takes " ++ toString expected ++ " argument(s) but " ++ toString found
      ++ " were supplied"
  | .invocation target _ =>
    "exception has been thrown by the target of an invocation (" ++ target ++ ")"

/-- The fault inside all wrappers. -/
def root : Fault → Fault
  | .invocation _ cause => cause.root
  | fault => fault

/-- The names on the wrappers, outermost first. -/
def targets : Fault → List String
  | .invocation target cause => target :: cause.targets
  | _ => []

/-- Whether code was missing, rather than failing. -/
def isLoadFailure (f : Fault) : Bool :=
  match f.root with
  | .unitNotLoaded _ | .typeNotFound _ | .methodNotFound .. => true
  | _ => false

end Fault

end TestBench.Machine
