import TestBench.Operation

/-!
Compiled code. Names are gone: locals and fields are numbered, and a call says
which unit and type its target belongs to.
-/
namespace TestBench.Code

/-- A method of a type in some unit. -/
structure Target where
  unit : String
  typeName : String
  method : String
  deriving DecidableEq, Repr

inductive Expr where
  | constant (value : Constant)
  | local (slot : Nat)
  | field (index : Nat)
  | unary (op : UnaryOp) (operand : Expr)
  | binary (left : Expr) (op : BinaryOp) (right : Expr)
  /-- A method of the same instance. -/
  | callSelf (method : String) (arguments : List Expr)
  /-- A method of a fresh instance. -/
  | callStatic (target : Target) (arguments : List Expr)
  | assertion (builtin : Builtin) (arguments : List Expr)
  deriving Repr

instance : Inhabited Expr := ⟨.constant (.boolean false)⟩

inductive Stmt where
  | setLocal (slot : Nat) (value : Expr)
  | setField (index : Nat) (value : Expr)
  | return (value : Option Expr)
  | cond (condition : Expr) (body otherwise : List Stmt)
  | while (condition : Expr) (body : List Stmt)
  | expr (value : Expr)
  deriving Repr

end TestBench.Code
