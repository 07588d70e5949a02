import TestBench.Image.Code

/-!
Images are compiled units. An image has the name of its unit, the names of the
units it refers to directly, and its types in the order of their declaration.
-/
namespace TestBench

namespace Image

structure Field where
  name : String
  init : Code.Expr
  deriving Repr

/-- The first `arity` of the `locals` slots are the parameters. -/
structure Method where
  name : String
  arity : Nat
  locals : Nat
  attributes : List String
  body : List Code.Stmt
  line : Nat
  deriving Repr

structure TypeDecl where
  fullName : String
  attributes : List String
  fields : List Field
  methods : List Method
  deriving Repr

namespace TypeDecl

def method? (t : TypeDecl) (name : String) : Option Method := t.methods.find? (·.name == name)

def fieldIndex? (t : TypeDecl) (name : String) : Option Nat :=
  t.fields.findIdx? (·.name == name)

end TypeDecl

end Image

structure Image where
  name : String
  references : List String
  types : List Image.TypeDecl
  deriving Repr

namespace Image

/-- Slots, counts and line numbers have 64 bits. -/
def sizeLimit : Nat := 0x10000000000000000

def sizeFits (n : Nat) : Bool := decide (n < sizeLimit)

mutual

def exprFits : Code.Expr → Bool
  | .constant _ => true
  | .local slot => sizeFits slot
  | .field index => sizeFits index
  | .unary _ operand => exprFits operand
  | .binary left _ right => exprFits left && exprFits right
  | .callSelf _ arguments => exprsFit arguments
  | .callStatic _ arguments => exprsFit arguments
  | .assertion _ arguments => exprsFit arguments

def exprsFit : List Code.Expr → Bool
  | [] => true
  | e :: rest => exprFits e && exprsFit rest

end

mutual

def stmtFits : Code.Stmt → Bool
  | .setLocal slot value => sizeFits slot && exprFits value
  | .setField index value => sizeFits index && exprFits value
  | .return value => value.all exprFits
  | .cond condition body otherwise => exprFits condition && stmtsFit body && stmtsFit otherwise
  | .while condition body => exprFits condition && stmtsFit body
  | .expr value => exprFits value

def stmtsFit : List Code.Stmt → Bool
  | [] => true
  | s :: rest => stmtFits s && stmtsFit rest

end

def methodFits (m : Method) : Bool :=
  sizeFits m.arity && sizeFits m.locals && sizeFits m.line && stmtsFit m.body

/-- Whether every size in the image is within its limit. -/
def fits (image : Image) : Bool :=
  image.types.all fun t => t.fields.all (exprFits ·.init) && t.methods.all methodFits

def type? (image : Image) (fullName : String) : Option TypeDecl :=
  image.types.find? (·.fullName == fullName)

end Image

end TestBench
