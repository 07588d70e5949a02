import TestBench.Source.Cursor
import TestBench.Token.Lexer

/-!
The grammar of source files. Binary operators are read by precedence and
associate to the left; blocks, parentheses, unary operators, the argument lists
of calls, `else if` and each operator of a chain lead one level further in. The
productions of a level are built from those of the level below it, and there
are as many levels as constructs may enclose one another.
-/
namespace TestBench.Source

open Production

/-- The productions that refer to constructs further in. -/
structure Level where
  /-- An operand: unary operators before a literal, a name, a call or a parenthesis. -/
  operand : Production Expr
  /-- What follows a left operand, of operators that bind at least this tightly. -/
  chain : Nat → Expr → Production Expr
  statement : Production Stmt
  /-- A conditional from its `if` on. -/
  conditional : Production Stmt

namespace Level

def binary (l : Level) (least : Nat) : Production Expr :=
  keepingDepth do l.chain least (← l.operand)

def expression (l : Level) : Production Expr := l.binary 1

end Level

/-- A production of the level below, if there is one. -/
def further {α : Type} (below : Option Level) (p : Level → Production α) : Production α :=
  match below with
  | some l => inside (p l)
  | none => fun c => (.error ⟨.tooDeep, c.peek.span⟩, c)

def qualifiedName : Production (Spanned QualifiedName) := do
  let head ← identifier
  let rest ← dotted (← get).ahead.length
  return ⟨⟨head.node, rest⟩, ← spanFrom head.span⟩
where
  dotted : Nat → Production (List String)
    | 0 => return []
    | limit + 1 => do
      if ← accept (.punctuation .dot) then
        let part ← identifier
        return part.node :: (← dotted limit)
      else return []

/-- The arguments of a call after its opening parenthesis, with the closing one. -/
def arguments (expression : Production Expr) : Production (List Expr) := do
  let args ← if ← isNext (.punctuation .rightParen) then pure [] else commaSeparated expression
  punctuation .rightParen
  return args

/-- A literal, a name, a call or an expression in parentheses. -/
def primary (below : Option Level) : Production Expr := do
  let t := (← get).peek
  match t.node with
  | .integer n =>
    modify (·.advance)
    return .constant t.span (.integer n)
  | .text s =>
    modify (·.advance)
    return .constant t.span (.text s)
  | .keyword .true =>
    modify (·.advance)
    return .constant t.span (.boolean true)
  | .keyword .false =>
    modify (·.advance)
    return .constant t.span (.boolean false)
  | .punctuation .leftParen =>
    modify (·.advance)
    let inner ← further below Level.expression
    punctuation .rightParen
    return .paren (← spanFrom t.span) inner
  | .identifier _ =>
    let name ← qualifiedName
    if ← accept (.punctuation .leftParen) then
      let args ← further below fun l => arguments l.expression
      return .call (← spanFrom name.span) name args
    else if name.node.isSimple then return .name name.span name.node.first
    else fail (.bareQualifiedName name.node) name.span
  | _ => unexpected .expression

def operandOver (below : Option Level) : Production Expr := do
  let t := (← get).peek
  match t.node with
  | .operator sign =>
    match UnaryOp.ofSign? sign with
    | some op =>
      modify (·.advance)
      let inner ← further below Level.operand
      return .unary (t.span.merge inner.span) op inner
    | none => primary below
  | _ => primary below

/-- The binary operator that comes next, if it binds at least this tightly. -/
def nextOperator (least : Nat) : Production (Option BinaryOp) := do
  match (← get).kind with
  | .operator sign => return (BinaryOp.ofSign? sign).filter (least ≤ ·.precedence)
  | _ => return none

def chainOver (below : Option Level) (least : Nat) (left : Expr) : Production Expr := do
  match ← nextOperator least with
  | none => return left
  | some op =>
    match below with
    | none => fail .tooDeep (← get).peek.span
    | some l =>
      enter
      modify (·.advance)
      let right ← l.binary (op.precedence + 1)
      l.chain least (.binary (left.span.merge right.span) op left right)

def closesBlock (c : Cursor) : Bool := c.kind = .punctuation .rightBrace || c.atEnd

/-- Statements in braces. -/
def block (below : Option Level) : Production (List Stmt) :=
  further below fun l => do
    punctuation .leftBrace
    let body ← recovering closesBlock (fun read => return (← l.statement) :: read) []
    punctuation .rightBrace
    return body.reverse

section

variable (below : Option Level) (expression : Production Expr)

def conditionalOver : Production Stmt := do
  let first := (← get).peek.span
  keyword .if
  let condition ← expression
  let body ← block below
  if ← accept (.keyword .else) then
    let otherwise ←
      if ← isNext (.keyword .if) then
        let nested ← further below Level.conditional
        pure [nested]
      else block below
    return .ifElse (← spanFrom first) condition body otherwise
  else return .ifThen (← spanFrom first) condition body

/-- An expression after an equals sign and before a semicolon. -/
def assigned (what : Expectation) : Production Expr := do
  expect what (.operator .assign)
  let value ← expression
  punctuation .semicolon
  return value

def statementOver : Production Stmt := do
  let c ← get
  let first := c.peek.span
  match c.kind with
  | .keyword .let =>
    modify (·.advance)
    let name ← identifier
    let value ← assigned expression .assignment
    return .bind (← spanFrom first) name.node value
  | .keyword .return =>
    modify (·.advance)
    let value ← if ← isNext (.punctuation .semicolon) then pure none else some <$> expression
    punctuation .semicolon
    return .return (← spanFrom first) value
  | .keyword .if => conditionalOver below expression
  | .keyword .while =>
    modify (·.advance)
    let condition ← expression
    let body ← block below
    return .while (← spanFrom first) condition body
  | kind =>
    match kind, c.secondKind with
    | .identifier name, .operator .assign =>
      modify (·.advance)
      let value ← assigned expression .assignment
      return .assign (← spanFrom first) name value
    | _, _ =>
      let value ← expression
      punctuation .semicolon
      return .expr (← spanFrom first) value

end

/-- The productions of a level from those of the level below it. -/
def Level.over (below : Option Level) : Level :=
  let expression := keepingDepth do chainOver below 1 (← operandOver below)
  ⟨operandOver below, chainOver below, statementOver below expression,
    conditionalOver below expression⟩

/-- The productions under which `n` further levels may be opened. -/
def Level.withRoom : Nat → Level
  | 0 => Level.over none
  | n + 1 => Level.over (some (Level.withRoom n))

/-- The productions of whole declarations. -/
def Level.outermost : Level := Level.withRoom maxNesting

def attributeItem (l : Level) : Production Attribute := do
  let name ← qualifiedName
  let args ← if ← accept (.punctuation .leftParen) then arguments l.expression else pure []
  return ⟨← spanFrom name.span, name.node, args⟩

/-- Any number of attribute lists in brackets. -/
def attributes (l : Level) : Production (List Attribute) := do
  lists (← get).ahead.length
where
  lists : Nat → Production (List Attribute)
    | 0 => return []
    | limit + 1 => do
      if ← accept (.punctuation .leftBracket) then
        let found ← commaSeparated (attributeItem l)
        punctuation .rightBracket
        return found ++ (← lists limit)
      else return []

inductive Member where
  | field (decl : Field)
  | method (decl : Method)

def Member.field? : Member → Option Field
  | .field decl => some decl
  | .method _ => none

def Member.method? : Member → Option Method
  | .method decl => some decl
  | .field _ => none

def parameters : Production (List (Spanned String)) := do
  punctuation .leftParen
  let params ← if ← isNext (.punctuation .rightParen) then pure [] else commaSeparated identifier
  punctuation .rightParen
  return params

def member (l : Level) (below : Option Level) : Production Member := do
  let first := (← get).peek.span
  let attrs ← attributes l
  match (← get).kind with
  | .keyword .let =>
    if let some misplaced := attrs.head? then fail .misplacedAttributes misplaced.span
    modify (·.advance)
    let name ← identifier
    let value ← assigned l.expression .fieldInitializer
    return .field ⟨← spanFrom first, name.node, value⟩
  | .keyword .fn =>
    modify (·.advance)
    let name ← identifier
    let params ← parameters
    let body ← block below
    return .method ⟨← spanFrom first, attrs, name, params, body⟩
  | _ => unexpected .member

def classDecl (l : Level) (below : Option Level) : Production ClassDecl := do
  let first := (← get).peek.span
  let attrs ← attributes l
  keyword .classDecl
  let name ← identifier
  punctuation .leftBrace
  let read ← recovering closesBlock (fun read => return (← member l below) :: read) []
  punctuation .rightBrace
  let members := read.reverse
  return ⟨← spanFrom first, attrs, name, members.filterMap Member.field?,
    members.filterMap Member.method?⟩

/-- A namespace name between its keyword and a semicolon. -/
def directive (word : Keyword) : Production (Spanned QualifiedName) := do
  let first := (← get).peek.span
  keyword word
  let name ← qualifiedName
  punctuation .semicolon
  return ⟨name.node, ← spanFrom first⟩

/-- Adds the next declaration to the program. -/
def declaration (l : Level) (below : Option Level) (p : Program) : Production Program := do
  match (← get).kind with
  | .keyword .namespace =>
    let space ← directive .namespace
    match p.space with
    | some declared => fail (.duplicateNamespace declared.node) space.span
    | none => return { p with space := some space }
  | .keyword .use => return { p with uses := p.uses ++ [← directive .use] }
  | .keyword .classDecl | .punctuation .leftBracket =>
    return { p with classes := p.classes ++ [← classDecl l below] }
  | _ => unexpected .declaration

namespace Program

/-- The program that the tokens spell, or every fault in them. -/
def ofTokens (tokens : List Token) : Except (List (Spanned SyntaxFault)) Program :=
  let below := Level.withRoom (maxNesting - 1)
  let item := declaration (Level.over (some below)) (some below)
  let (program, c) :=
    recoveringUpTo Cursor.atEnd item tokens.length Program.empty (Cursor.start tokens)
  if c.faults.isEmpty then .ok program else .error c.faults

inductive Fault where
  | lexical (faults : List (Spanned LexicalFault))
  | syntactic (faults : List (Spanned SyntaxFault))

def Fault.diagnostics : Fault → List Diagnostic
  | .lexical faults => faults.map LexicalFault.diagnostic
  | .syntactic faults => faults.map SyntaxFault.diagnostic

/-- The program that a text spells. Its syntax is examined once all of it is tokens. -/
def ofSource (source : List Char) : Except Fault Program :=
  match Token.scan source with
  | .error faults => .error (.lexical faults)
  | .ok tokens =>
    match ofTokens tokens with
    | .error faults => .error (.syntactic faults)
    | .ok program => .ok program

end Program

end TestBench.Source
