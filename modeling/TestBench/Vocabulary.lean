/-!
The words and signs of the test language. Each table lists its items once, in
the order in which they are presented, and a spelling names at most one item
of a table.
-/
namespace TestBench

inductive Keyword where
  | namespace | use | classDecl | fn | let
  | if | else | while | return
  | true | false
  deriving DecidableEq, Repr

namespace Keyword

def all : List Keyword :=
  [.namespace, .use, .classDecl, .fn, .let, .if, .else, .while, .return, .true, .false]

def spelling : Keyword → String
  | .namespace => "namespace"
  | .use => "use"
  | .classDecl => "class"
  | .fn => "fn"
  | .let => "let"
  | .if => "if"
  | .else => "else"
  | .while => "while"
  | .return => "return"
  | .true => "true"
  | .false => "false"

def purpose : Keyword → String
  | .namespace => "File-scoped namespace declaration."
  | .use => "Import a namespace for unqualified type references."
  | .classDecl => "Declare a type with fields and methods."
  | .fn => "Declare a method."
  | .let => "Declare a field or a local binding."
  | .if => "Conditional statement."
  | .else => "Alternative branch of an `if`."
  | .while => "Loop while a condition holds."
  | .return => "Return from the current method."
  | .true => "Boolean literal."
  | .false => "Boolean literal."

def ofSpelling? (word : String) : Option Keyword := all.find? (·.spelling == word)

end Keyword

inductive Operator where
  | plus | minus | star | slash | percent
  | eqEq | notEq | lt | ltEq | gt | gtEq
  | andAnd | orOr | bang | assign
  deriving DecidableEq, Repr

namespace Operator

def all : List Operator :=
  [.plus, .minus, .star, .slash, .percent, .eqEq, .notEq, .lt, .ltEq, .gt, .gtEq,
    .andAnd, .orOr, .bang, .assign]

def spelling : Operator → String
  | .plus => "+"
  | .minus => "-"
  | .star => "*"
  | .slash => "/"
  | .percent => "%"
  | .eqEq => "=="
  | .notEq => "!="
  | .lt => "<"
  | .ltEq => "<="
  | .gt => ">"
  | .gtEq => ">="
  | .andAnd => "&&"
  | .orOr => "||"
  | .bang => "!"
  | .assign => "="

def purpose : Operator → String
  | .plus => "Addition or string concatenation."
  | .minus => "Subtraction or negation."
  | .star => "Multiplication."
  | .slash => "Integer division."
  | .percent => "Remainder."
  | .eqEq => "Equality."
  | .notEq => "Inequality."
  | .lt => "Less than."
  | .ltEq => "Less than or equal."
  | .gt => "Greater than."
  | .gtEq => "Greater than or equal."
  | .andAnd => "Short-circuit conjunction."
  | .orOr => "Short-circuit disjunction."
  | .bang => "Logical negation."
  | .assign => "Assignment."

def ofSpelling? (sign : String) : Option Operator := all.find? (·.spelling == sign)

/-- How tightly a binary operator binds; the others have no precedence. -/
def precedence? : Operator → Option Nat
  | .orOr => some 1
  | .andAnd => some 2
  | .eqEq | .notEq => some 3
  | .lt | .ltEq | .gt | .gtEq => some 4
  | .plus | .minus => some 5
  | .star | .slash | .percent => some 6
  | .bang | .assign => none

end Operator

inductive Punctuation where
  | comma | semicolon | dot
  | leftParen | rightParen | leftBracket | rightBracket | leftBrace | rightBrace
  deriving DecidableEq, Repr

namespace Punctuation

def all : List Punctuation :=
  [.comma, .semicolon, .dot, .leftParen, .rightParen, .leftBracket, .rightBracket,
    .leftBrace, .rightBrace]

def spelling : Punctuation → String
  | .comma => ","
  | .semicolon => ";"
  | .dot => "."
  | .leftParen => "("
  | .rightParen => ")"
  | .leftBracket => "["
  | .rightBracket => "]"
  | .leftBrace => "\x7b"
  | .rightBrace => "\x7d"

def purpose : Punctuation → String
  | .comma => "Separates arguments, parameters and attributes."
  | .semicolon => "Terminates declarations and statements."
  | .dot => "Separates qualified name segments."
  | .leftParen => "Opens an argument or parameter list."
  | .rightParen => "Closes an argument or parameter list."
  | .leftBracket => "Opens an attribute list."
  | .rightBracket => "Closes an attribute list."
  | .leftBrace => "Opens a class body or block."
  | .rightBrace => "Closes a class body or block."

def ofSpelling? (sign : String) : Option Punctuation := all.find? (·.spelling == sign)

end Punctuation

/-- The assertions that every program may call. -/
inductive Builtin where
  | assert | assertEq | assertNe | fail
  deriving DecidableEq, Repr

namespace Builtin

def all : List Builtin := [.assert, .assertEq, .assertNe, .fail]

def spelling : Builtin → String
  | .assert => "assert"
  | .assertEq => "assert_eq"
  | .assertNe => "assert_ne"
  | .fail => "fail"

/-- Dotted spellings that mean the same. -/
def aliases : Builtin → List String
  | .assert => ["Assert.IsTrue", "Assert.That"]
  | .assertEq => ["Assert.AreEqual"]
  | .assertNe => ["Assert.AreNotEqual"]
  | .fail => ["Assert.Fail"]

def purpose : Builtin → String
  | .assert => "Fail unless the condition is true."
  | .assertEq => "Fail unless `actual` equals `expected`."
  | .assertNe => "Fail if both values are equal."
  | .fail => "Fail unconditionally with a message."

def arity : Builtin → Nat
  | .assert | .fail => 1
  | .assertEq | .assertNe => 2

def isSpelledAs (b : Builtin) (name : String) : Bool :=
  b.spelling == name || b.aliases.contains name

def ofSpelling? (name : String) : Option Builtin := all.find? (·.isSpelledAs name)

end Builtin

end TestBench
