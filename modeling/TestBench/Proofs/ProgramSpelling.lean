import TestBench.Source.Grammar

/-!
How programs are spelled as tokens. An expression has one spelling; it stands
for the expression only if the operators bind as they are grouped. A branch
after `else` that is a single conditional may stand without its braces, attributes
may be divided among several lists, and an attribute without arguments may have
empty parentheses. Fields and methods may be mixed, and so may directives and
classes, as long as each sort keeps its order. What is spelled does not know its
places, so programs are compared without them.
-/
namespace TestBench

def Constant.kind : Constant → TokenKind
  | .integer n => .integer n
  | .boolean true => .keyword .true
  | .boolean false => .keyword .false
  | .text s => .text s

/-- Further parts of a name, each with the dot before it. -/
def dottedKinds (parts : List String) : List TokenKind :=
  parts.flatMap fun part => [.punctuation .dot, .identifier part]

def QualifiedName.kinds (n : QualifiedName) : List TokenKind :=
  .identifier n.first :: dottedKinds n.more

namespace Source

def parenthesized (inner : List TokenKind) : List TokenKind :=
  .punctuation .leftParen :: (inner ++ [.punctuation .rightParen])

def bracketed (inner : List TokenKind) : List TokenKind :=
  .punctuation .leftBracket :: (inner ++ [.punctuation .rightBracket])

def braced (inner : List TokenKind) : List TokenKind :=
  .punctuation .leftBrace :: (inner ++ [.punctuation .rightBrace])

section Lists

variable {α : Type} (S : α → List TokenKind → Prop)

/-- Any number of items, one after the other. -/
def Sequence : List α → List TokenKind → Prop
  | [], ks => ks = []
  | a :: rest, ks => ∃ first later, S a first ∧ Sequence rest later ∧ ks = first ++ later

/-- At least one item, with commas between them. -/
def Listed : List α → List TokenKind → Prop
  | [], _ => False
  | [a], ks => S a ks
  | a :: b :: rest, ks => ∃ first later, S a first ∧ Listed (b :: rest) later ∧
      ks = first ++ .punctuation .comma :: later

end Lists

namespace Expr

mutual

def kinds : Expr → List TokenKind
  | constant _ value => [value.kind]
  | name _ spelled => [.identifier spelled]
  | unary _ op operand => .operator op.sign :: operand.kinds
  | binary _ op left right => left.kinds ++ .operator op.sign :: right.kinds
  | call _ callee arguments => callee.node.kinds ++ parenthesized (kindsOfAll arguments)
  | paren _ inner => parenthesized inner.kinds

/-- Expressions with commas between them. -/
def kindsOfAll : List Expr → List TokenKind
  | [] => []
  | [e] => e.kinds
  | e :: f :: rest => e.kinds ++ .punctuation .comma :: kindsOfAll (f :: rest)

end

/-- The precedence of the operator that the expression applies to two operands, if it does. -/
def precedence? : Expr → Option Nat
  | binary _ op .. => some op.precedence
  | _ => none

/-- If the expression applies an operator to two operands, the operator binds this tightly. -/
def Binds (least : Nat) (e : Expr) : Prop := ∀ n ∈ e.precedence?, least ≤ n

mutual

/-- Without parentheses, no left operand has an operator of lower precedence, no right operand has
one of lower or the same, and the operand of a unary operator has none. -/
def Grouped : Expr → Prop
  | constant .. | name .. => True
  | unary _ _ operand => operand.precedence? = none ∧ operand.Grouped
  | binary _ op left right => left.Binds op.precedence ∧ right.Binds (op.precedence + 1) ∧
      left.Grouped ∧ right.Grouped
  | call _ _ arguments => AllGrouped arguments
  | paren _ inner => inner.Grouped

def AllGrouped : List Expr → Prop
  | [] => True
  | e :: rest => e.Grouped ∧ AllGrouped rest

end

end Expr

namespace Stmt

def isConditional : Stmt → Bool
  | ifThen .. | ifElse .. => true
  | _ => false

/-- The branch after `else`, given the spelling of its statements. -/
def Branch (otherwise : List Stmt) (inner ks : List TokenKind) : Prop :=
  ks = braced inner ∨ ks = inner ∧ ∃ s, otherwise = [s] ∧ s.isConditional = true

mutual

def Spelled : Stmt → List TokenKind → Prop
  | bind _ name value, ks =>
    ks = .keyword .let :: .identifier name :: .operator .assign ::
      (value.kinds ++ [.punctuation .semicolon])
  | assign _ target value, ks =>
    ks = .identifier target :: .operator .assign :: (value.kinds ++ [.punctuation .semicolon])
  | «return» _ value, ks =>
    ks = .keyword .return :: ((value.map Expr.kinds).getD [] ++ [.punctuation .semicolon])
  | ifThen _ condition body, ks => ∃ inner, AllSpelled body inner ∧
      ks = .keyword .if :: (condition.kinds ++ braced inner)
  | ifElse _ condition body otherwise, ks =>
    ∃ inner other branch, AllSpelled body inner ∧ AllSpelled otherwise other ∧
      Branch otherwise other branch ∧
        ks = .keyword .if :: (condition.kinds ++ braced inner ++ .keyword .else :: branch)
  | «while» _ condition body, ks => ∃ inner, AllSpelled body inner ∧
      ks = .keyword .while :: (condition.kinds ++ braced inner)
  | expr _ value, ks => ks = value.kinds ++ [.punctuation .semicolon]

def AllSpelled : List Stmt → List TokenKind → Prop
  | [], ks => ks = []
  | s :: rest, ks => ∃ first later, s.Spelled first ∧ AllSpelled rest later ∧ ks = first ++ later

end

mutual

/-- All expressions of the statement are grouped as they are spelled. -/
def Grouped : Stmt → Prop
  | bind _ _ value | assign _ _ value | expr _ value => value.Grouped
  | «return» _ value => ∀ e ∈ value, e.Grouped
  | ifThen _ condition body | «while» _ condition body => condition.Grouped ∧ AllGrouped body
  | ifElse _ condition body otherwise =>
    condition.Grouped ∧ AllGrouped body ∧ AllGrouped otherwise

def AllGrouped : List Stmt → Prop
  | [] => True
  | s :: rest => s.Grouped ∧ AllGrouped rest

end

end Stmt

def Attribute.Spelled (a : Attribute) (ks : List TokenKind) : Prop :=
  ks = a.name.kinds ∧ a.arguments = [] ∨
    ks = a.name.kinds ++ parenthesized (Expr.kindsOfAll a.arguments)

/-- Attributes in any number of lists in brackets. -/
def AttributesSpelled (attributes : List Attribute) (ks : List TokenKind) : Prop :=
  ∃ lists : List (List Attribute), lists.flatten = attributes ∧
    Sequence (fun list ks => ∃ inner, Listed Attribute.Spelled list inner ∧ ks = bracketed inner)
      lists ks

def Field.kinds (f : Field) : List TokenKind :=
  .keyword .let :: .identifier f.name :: .operator .assign ::
    (f.value.kinds ++ [.punctuation .semicolon])

def parameterKinds : List (Spanned String) → List TokenKind
  | [] => []
  | [p] => [.identifier p.node]
  | p :: q :: rest => .identifier p.node :: .punctuation .comma :: parameterKinds (q :: rest)

def Method.Spelled (m : Method) (ks : List TokenKind) : Prop :=
  ∃ attributes body, AttributesSpelled m.attributes attributes ∧ Stmt.AllSpelled m.body body ∧
    ks = attributes ++ .keyword .fn :: .identifier m.name.node ::
      (parenthesized (parameterKinds m.parameters) ++ braced body)

def Member.Spelled : Member → List TokenKind → Prop
  | .field f, ks => ks = f.kinds
  | .method m, ks => m.Spelled ks

def ClassDecl.Spelled (c : ClassDecl) (ks : List TokenKind) : Prop :=
  ∃ attributes members body, AttributesSpelled c.attributes attributes ∧
    members.filterMap Member.field? = c.fields ∧ members.filterMap Member.method? = c.methods ∧
      Sequence Member.Spelled members body ∧
        ks = attributes ++ .keyword .classDecl :: .identifier c.name.node :: braced body

/-- A declaration of a file. -/
inductive Declaration where
  | space (name : Spanned QualifiedName)
  | use (name : Spanned QualifiedName)
  | type (decl : ClassDecl)

namespace Declaration

def space? : Declaration → Option (Spanned QualifiedName)
  | space name => some name
  | _ => none

def use? : Declaration → Option (Spanned QualifiedName)
  | use name => some name
  | _ => none

def type? : Declaration → Option ClassDecl
  | type decl => some decl
  | _ => none

def directiveKinds (word : Keyword) (name : QualifiedName) : List TokenKind :=
  .keyword word :: (name.kinds ++ [.punctuation .semicolon])

def Spelled : Declaration → List TokenKind → Prop
  | space name, ks => ks = directiveKinds .namespace name.node
  | use name, ks => ks = directiveKinds .use name.node
  | type decl, ks => decl.Spelled ks

end Declaration

namespace Program

/-- The declarations are those of the program, each sort in its order. -/
structure DeclaredAs (p : Program) (declarations : List Declaration) : Prop where
  space : declarations.filterMap Declaration.space? = p.space.toList
  uses : declarations.filterMap Declaration.use? = p.uses
  classes : declarations.filterMap Declaration.type? = p.classes

def Spelled (p : Program) (ks : List TokenKind) : Prop :=
  ∃ declarations, p.DeclaredAs declarations ∧ Sequence Declaration.Spelled declarations ks

end Program

/-! Each program has a standard spelling, in which conditionals after `else` have braces or not. -/

namespace Stmt

/-- The branch after `else`, with the spelling of its statements. -/
def branchKinds (ladders : Bool) : List Stmt → List TokenKind → List TokenKind
  | [s], inner => if ladders && s.isConditional then inner else braced inner
  | _, inner => braced inner

mutual

def kinds (ladders : Bool) : Stmt → List TokenKind
  | bind _ name value => .keyword .let :: .identifier name :: .operator .assign ::
      (value.kinds ++ [.punctuation .semicolon])
  | assign _ target value =>
    .identifier target :: .operator .assign :: (value.kinds ++ [.punctuation .semicolon])
  | «return» _ value =>
    .keyword .return :: ((value.map Expr.kinds).getD [] ++ [.punctuation .semicolon])
  | ifThen _ condition body =>
    .keyword .if :: (condition.kinds ++ braced (kindsOfAll ladders body))
  | ifElse _ condition body otherwise =>
    .keyword .if :: (condition.kinds ++ braced (kindsOfAll ladders body) ++
      .keyword .else :: branchKinds ladders otherwise (kindsOfAll ladders otherwise))
  | «while» _ condition body =>
    .keyword .while :: (condition.kinds ++ braced (kindsOfAll ladders body))
  | expr _ value => value.kinds ++ [.punctuation .semicolon]

def kindsOfAll (ladders : Bool) : List Stmt → List TokenKind
  | [] => []
  | s :: rest => s.kinds ladders ++ kindsOfAll ladders rest

end

end Stmt

def Attribute.kinds (a : Attribute) : List TokenKind :=
  a.name.kinds ++ if a.arguments.isEmpty then [] else parenthesized (Expr.kindsOfAll a.arguments)

/-- The attributes in one list, if there are any. -/
def attributeKinds (attributes : List Attribute) : List TokenKind :=
  if attributes.isEmpty then []
  else bracketed ([.punctuation .comma].intercalate (attributes.map Attribute.kinds))

def Method.kinds (ladders : Bool) (m : Method) : List TokenKind :=
  attributeKinds m.attributes ++ .keyword .fn :: .identifier m.name.node ::
    (parenthesized (parameterKinds m.parameters) ++ braced (Stmt.kindsOfAll ladders m.body))

/-- The fields come before the methods. -/
def ClassDecl.kinds (ladders : Bool) (c : ClassDecl) : List TokenKind :=
  attributeKinds c.attributes ++ .keyword .classDecl :: .identifier c.name.node ::
    braced (c.fields.flatMap Field.kinds ++ c.methods.flatMap (Method.kinds ladders))

/-- The namespace comes before what is used, and both before the classes. -/
def Program.kinds (ladders : Bool) (p : Program) : List TokenKind :=
  p.space.toList.flatMap (fun name => Declaration.directiveKinds .namespace name.node) ++
    (p.uses.flatMap (fun name => Declaration.directiveKinds .use name.node) ++
      p.classes.flatMap (ClassDecl.kinds ladders))

/-! Programs without the places they were read from. -/

namespace Expr

mutual

def bare : Expr → Expr
  | constant _ value => constant (Span.empty 0) value
  | name _ spelled => name (Span.empty 0) spelled
  | unary _ op operand => unary (Span.empty 0) op operand.bare
  | binary _ op left right => binary (Span.empty 0) op left.bare right.bare
  | call _ callee arguments =>
    call (Span.empty 0) ⟨callee.node, Span.empty 0⟩ (bareAll arguments)
  | paren _ inner => paren (Span.empty 0) inner.bare

def bareAll : List Expr → List Expr
  | [] => []
  | e :: rest => e.bare :: bareAll rest

end

end Expr

namespace Stmt

mutual

def bare : Stmt → Stmt
  | bind _ name value => bind (Span.empty 0) name value.bare
  | assign _ target value => assign (Span.empty 0) target value.bare
  | «return» _ value => «return» (Span.empty 0) (value.map Expr.bare)
  | ifThen _ condition body => ifThen (Span.empty 0) condition.bare (bareAll body)
  | ifElse _ condition body otherwise =>
    ifElse (Span.empty 0) condition.bare (bareAll body) (bareAll otherwise)
  | «while» _ condition body => «while» (Span.empty 0) condition.bare (bareAll body)
  | expr _ value => expr (Span.empty 0) value.bare

def bareAll : List Stmt → List Stmt
  | [] => []
  | s :: rest => s.bare :: bareAll rest

end

end Stmt

section Bare

def bareName {α : Type} (a : Spanned α) : Spanned α := ⟨a.node, Span.empty 0⟩

def Attribute.bare (a : Attribute) : Attribute :=
  ⟨Span.empty 0, a.name, a.arguments.map Expr.bare⟩

def Field.bare (f : Field) : Field := ⟨Span.empty 0, f.name, f.value.bare⟩

def Method.bare (m : Method) : Method :=
  ⟨Span.empty 0, m.attributes.map Attribute.bare, bareName m.name, m.parameters.map bareName,
    m.body.map Stmt.bare⟩

def ClassDecl.bare (c : ClassDecl) : ClassDecl :=
  ⟨Span.empty 0, c.attributes.map Attribute.bare, bareName c.name, c.fields.map Field.bare,
    c.methods.map Method.bare⟩

def Program.bare (p : Program) : Program :=
  ⟨p.space.map bareName, p.uses.map bareName, p.classes.map ClassDecl.bare⟩

end Bare

end Source

end TestBench
