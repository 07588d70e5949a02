import TestBench.Operation
import TestBench.Text.Span

/-!
Programs as trees. A file holds an optional namespace, the namespaces it uses
and its classes; a class holds fields, each with an initial value, and methods.
Every node knows the part of the text it was read from.
-/
namespace TestBench

/-- A non-empty name of parts that dots separate. -/
structure QualifiedName where
  first : String
  more : List String
  deriving DecidableEq, Repr

namespace QualifiedName

def parts (n : QualifiedName) : List String := n.first :: n.more

def last (n : QualifiedName) : String := n.more.getLastD n.first

def isSimple (n : QualifiedName) : Bool := n.more.isEmpty

def written (n : QualifiedName) : String := ".".intercalate n.parts

/-- All parts but the last, if there are others. -/
def qualifier? (n : QualifiedName) : Option QualifiedName :=
  if n.isSimple then none else some ⟨n.first, n.more.dropLast⟩

end QualifiedName

namespace Source

inductive Expr where
  | constant (span : Span) (value : Constant)
  | name (span : Span) (name : String)
  | unary (span : Span) (op : UnaryOp) (operand : Expr)
  | binary (span : Span) (op : BinaryOp) (left right : Expr)
  | call (span : Span) (callee : Spanned QualifiedName) (arguments : List Expr)
  | paren (span : Span) (inner : Expr)
  deriving Repr

def Expr.span : Expr → Span
  | .constant span .. | .name span .. | .unary span .. | .binary span .. | .call span ..
  | .paren span .. => span

inductive Stmt where
  | bind (span : Span) (name : String) (value : Expr)
  | assign (span : Span) (target : String) (value : Expr)
  | return (span : Span) (value : Option Expr)
  | ifThen (span : Span) (condition : Expr) (body : List Stmt)
  | ifElse (span : Span) (condition : Expr) (body otherwise : List Stmt)
  | while (span : Span) (condition : Expr) (body : List Stmt)
  | expr (span : Span) (value : Expr)
  deriving Repr

def Stmt.span : Stmt → Span
  | .bind span .. | .assign span .. | .return span .. | .ifThen span .. | .ifElse span ..
  | .while span .. | .expr span .. => span

structure Attribute where
  span : Span
  name : QualifiedName
  arguments : List Expr
  deriving Repr

structure Field where
  span : Span
  name : String
  value : Expr
  deriving Repr

structure Method where
  span : Span
  attributes : List Attribute
  name : Spanned String
  parameters : List (Spanned String)
  body : List Stmt
  deriving Repr

structure ClassDecl where
  span : Span
  attributes : List Attribute
  name : Spanned String
  fields : List Field
  methods : List Method
  deriving Repr

structure Program where
  space : Option (Spanned QualifiedName)
  uses : List (Spanned QualifiedName)
  classes : List ClassDecl
  deriving Repr

def attributeNames (attributes : List Attribute) : List String :=
  attributes.map (·.name.written)

namespace Program

def empty : Program := ⟨none, [], []⟩

/-- A type's full name is its class name under the namespace of the file. -/
def fullName (p : Program) (name : String) : String :=
  match p.space with
  | some space => space.node.written ++ "." ++ name
  | none => name

def typeNames (p : Program) : List String := p.classes.map fun c => p.fullName c.name.node

end Program

end Source

end TestBench
