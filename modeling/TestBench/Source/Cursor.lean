import TestBench.Diagnostic
import TestBench.Source.Tree
import TestBench.Token

/-!
The state of reading a stream of tokens. A cursor knows the tokens ahead, the
span of the last one read, how deeply the construct being read is nested, and
the faults that were reported and recovered from. The end of the file is never
read past.
-/
namespace TestBench.Source

/-- What the grammar would have accepted. -/
inductive Expectation where
  | declaration
  | member
  | identifier
  | expression
  | fieldInitializer
  | assignment
  | keyword (word : Keyword)
  | punctuation (sign : Punctuation)
  deriving DecidableEq, Repr

def Expectation.describe : Expectation → String
  | .declaration => "'namespace', 'use' or 'class'"
  | .member => "'let' or 'fn'"
  | .identifier => "an identifier"
  | .expression => "an expression"
  | .fieldInitializer => "'=' (fields require an initializer)"
  | .assignment => "'='"
  | .keyword word => quoted word.spelling
  | .punctuation sign => quoted sign.spelling

inductive SyntaxFault where
  | expected (what : Expectation) (found : TokenKind)
  | duplicateNamespace (declared : QualifiedName)
  | misplacedAttributes
  | tooDeep
  | bareQualifiedName (name : QualifiedName)
  deriving DecidableEq, Repr

/-- How many constructs may enclose one another. -/
def maxNesting : Nat := 256

namespace SyntaxFault

def message : SyntaxFault → String
  | .expected what found => "Expected " ++ what.describe ++ ", found " ++ found.describe
  | .duplicateNamespace _ => "Duplicate namespace declaration"
  | .misplacedAttributes => "Attributes are only allowed on methods and classes"
  | .tooDeep => "Expression nested too deeply"
  | .bareQualifiedName name => "Expected '(' after qualified name " ++ quoted name.written

def notes : SyntaxFault → List String
  | .duplicateNamespace declared =>
    ["namespace " ++ quoted declared.written ++ " was already declared"]
  | .tooDeep => ["nesting is limited to " ++ toString maxNesting ++ " levels"]
  | .bareQualifiedName _ => ["qualified names are only valid as call targets"]
  | _ => []

def diagnostic (f : Spanned SyntaxFault) : Diagnostic :=
  ⟨.syntactic, f.node.message, f.span, f.node.notes, []⟩

end SyntaxFault

structure Cursor where
  ahead : List Token
  last : Span
  depth : Nat
  faults : List (Spanned SyntaxFault)

namespace Cursor

def start (tokens : List Token) : Cursor :=
  ⟨tokens, (tokens.head?.map (·.span)).getD (Span.empty 0), 0, []⟩

/-- The next token. A stream that was cut short ends where its last token does. -/
def peek (c : Cursor) : Token := c.ahead.headD ⟨.endOfFile, Span.empty c.last.stop⟩

def kind (c : Cursor) : TokenKind := c.peek.node

/-- The kind of the token after the next one. -/
def secondKind (c : Cursor) : TokenKind :=
  match c.ahead with
  | _ :: second :: _ => second.node
  | _ => c.kind

def atEnd (c : Cursor) : Bool := c.kind = .endOfFile

def advance (c : Cursor) : Cursor :=
  match c.ahead with
  | [] => c
  | t :: rest => if t.node = .endOfFile then c else { c with ahead := rest, last := t.span }

def report (fault : Spanned SyntaxFault) (c : Cursor) : Cursor :=
  { c with faults := c.faults ++ [fault] }

/-- The tokens before which reading resumes after a fault. -/
def isBoundary : TokenKind → Bool
  | .punctuation .rightBrace | .punctuation .leftBracket => true
  | .keyword .classDecl | .keyword .fn | .keyword .let | .keyword .namespace | .keyword .use => true
  | .endOfFile => true
  | _ => false

/-- Skips to the next boundary, or to just after a semicolon if one comes first. -/
def synchronizeFrom (last : Span) : List Token → List Token × Span
  | [] => ([], last)
  | t :: rest =>
    if t.node = .punctuation .semicolon then (rest, t.span)
    else if isBoundary t.node then (t :: rest, last)
    else synchronizeFrom t.span rest

def synchronize (c : Cursor) : Cursor :=
  let found := synchronizeFrom c.last c.ahead
  { c with ahead := found.1, last := found.2 }

/-- Leaves a construct that could not be read and that began with `size` tokens ahead. -/
def recover (c : Cursor) (size : Nat) (fault : Spanned SyntaxFault) : Cursor :=
  let next := (c.report fault).synchronize
  if next.ahead.length = size then next.advance else next

end Cursor

/-- Reads a construct, or fails with a fault; either way the cursor stays where reading stopped. -/
abbrev Production (α : Type) := ExceptT (Spanned SyntaxFault) (StateM Cursor) α

namespace Production

def fail {α : Type} (fault : SyntaxFault) (span : Span) : Production α := throw ⟨fault, span⟩

def unexpected {α : Type} (what : Expectation) : Production α := do
  let t := (← get).peek
  fail (.expected what t.node) t.span

def isNext (kind : TokenKind) : Production Bool := return (← get).kind = kind

/-- Reads the next token if it is of this kind. -/
def accept (kind : TokenKind) : Production Bool := do
  if ← isNext kind then
    modify (·.advance)
    return true
  else return false

def expect (what : Expectation) (kind : TokenKind) : Production Unit := do
  unless ← accept kind do unexpected what

def keyword (word : Keyword) : Production Unit := expect (.keyword word) (.keyword word)

def punctuation (sign : Punctuation) : Production Unit :=
  expect (.punctuation sign) (.punctuation sign)

def identifier : Production (Spanned String) := do
  let t := (← get).peek
  match t.node with
  | .identifier name =>
    modify (·.advance)
    return ⟨name, t.span⟩
  | _ => unexpected .identifier

/-- The span from the start of `first` to the end of the token read last. -/
def spanFrom (first : Span) : Production Span := return first.merge (← get).last

/-- Runs a production on constructs one level further in. -/
def inside {α : Type} (p : Production α) : Production α := fun c =>
  if c.depth < maxNesting then
    match p { c with depth := c.depth + 1 } with
    | (result, after) => (result, { after with depth := after.depth - 1 })
  else (.error ⟨.tooDeep, c.peek.span⟩, c)

/-- Raises the nesting for all that is read next. -/
def enter : Production Unit := fun c =>
  if c.depth < maxNesting then (.ok (), { c with depth := c.depth + 1 })
  else (.error ⟨.tooDeep, c.peek.span⟩, c)

/-- Afterwards the nesting is what it was before. -/
def keepingDepth {α : Type} (p : Production α) : Production α := fun c =>
  match p c with
  | (result, after) => (result, { after with depth := c.depth })

/-- Items that commas separate, at most `limit` commas. -/
def commaSeparatedUpTo {α : Type} (item : Production α) : Nat → Production (List α)
  | 0 => return [← item]
  | limit + 1 => do
    let x ← item
    if ← accept (.punctuation .comma) then return x :: (← commaSeparatedUpTo item limit)
    else return [x]

/-- One or more items that commas separate; there are fewer commas than tokens ahead. -/
def commaSeparated {α : Type} (item : Production α) : Production (List α) := fun c =>
  commaSeparatedUpTo item c.ahead.length c

/-- Reads items until `stop` holds and recovers from the faults in them. An item that fails
leaves what was read as it was. -/
def recoveringUpTo {σ : Type} (stop : Cursor → Bool) (item : σ → Production σ) :
    Nat → σ → Cursor → σ × Cursor
  | 0, s, c => (s, c)
  | limit + 1, s, c =>
    if stop c then (s, c)
    else match item s c with
      | (.ok s', c') => recoveringUpTo stop item limit s' c'
      | (.error fault, c') =>
        recoveringUpTo stop item limit s (c'.recover c.ahead.length fault)

/-- Reads all items; each reads at least one of the tokens ahead. -/
def recovering {σ : Type} (stop : Cursor → Bool) (item : σ → Production σ) (s : σ) :
    Production σ := fun c =>
  let r := recoveringUpTo stop item c.ahead.length s c
  (.ok r.1, r.2)

end Production

end TestBench.Source
