import TestBench.Token
import TestBench.Diagnostic

/-!
The lexemes of a text. Spaces, tabs, carriage returns, line feeds and comments
from `//` to the end of the line separate tokens; everything else is a token
or a fault. Reading goes on after a fault, so that all faults of a text are
found, but a text with a fault has no tokens.
-/
namespace TestBench

inductive LexicalFault where
  | stray (c : Char)
  | halved (c : Char)
  | outOfRange (digits : String)
  | unknownEscape (c : Char)
  | unterminated
  deriving DecidableEq, Repr

namespace LexicalFault

def message : LexicalFault → String
  | .stray c => "Unexpected character " ++ quoted (String.singleton c)
  | .halved c =>
    "Unexpected character " ++ quoted (String.singleton c) ++ " (did you mean "
      ++ quoted (String.ofList [c, c]) ++ "?)"
  | .outOfRange digits => "Integer literal " ++ quoted digits ++ " is out of range"
  | .unknownEscape c => "Unknown escape sequence " ++ quoted (String.ofList ['\\', c])
  | .unterminated => "Unterminated string literal"

def diagnostic (f : Spanned LexicalFault) : Diagnostic :=
  ⟨.syntactic, f.node.message, f.span, [], []⟩

end LexicalFault

namespace Token

def isBlank (c : Char) : Bool := c == ' ' || c == '\t' || c == '\r' || c == '\n'

def isDigit (c : Char) : Bool := '0' ≤ c && c ≤ '9'

def isLetter (c : Char) : Bool := ('a' ≤ c && c ≤ 'z') || ('A' ≤ c && c ≤ 'Z')

def startsName (c : Char) : Bool := isLetter c || c == '_'

def continuesName (c : Char) : Bool := isLetter c || isDigit c || c == '_'

def continuesInteger (c : Char) : Bool := isDigit c || c == '_'

/-- One lexeme: the token it stands for, if any, and where the next one starts. -/
structure Lexeme where
  kind : Option TokenKind
  faults : List (Spanned LexicalFault)
  stop : Nat
  rest : List Char

/-- The value of decimal digits. -/
def decimal (digits : List Char) : Nat :=
  digits.foldl (fun n d => 10 * n + (d.toNat - '0'.toNat)) 0

/-- The leading characters that satisfy `p`, as a lexeme that starts with `c`. -/
def run (start : Nat) (c : Char) (cs : List Char) (p : Char → Bool)
    (read : List Char → Except LexicalFault TokenKind) : Lexeme :=
  let stop := start + byteLength (c :: cs.takeWhile p)
  let rest := cs.dropWhile p
  match read (c :: cs.takeWhile p) with
  | .ok kind => ⟨some kind, [], stop, rest⟩
  | .error fault => ⟨none, [⟨fault, ⟨start, stop⟩⟩], stop, rest⟩

/-- The token of digits with a value, which may be out of range. -/
def integer (digits : List Char) : Option Word → Except LexicalFault TokenKind
  | some n => .ok (.integer n)
  | none => .error (.outOfRange (String.ofList digits))

/-- Underscores may separate the digits of an integer and do not count. -/
def readInteger (cs : List Char) : Except LexicalFault TokenKind :=
  let digits := cs.filter (· != '_')
  integer digits (Word.ofInt? (decimal digits))

def readName (cs : List Char) : Except LexicalFault TokenKind :=
  let name := String.ofList cs
  match Keyword.ofSpelling? name with
  | some k => .ok (.keyword k)
  | none => .ok (.identifier name)

/-- The character that a backslash and `c` stand for. -/
def unescape (c : Char) : Option Char :=
  if c = 'n' then some '\n'
  else if c = 't' then some '\t'
  else if c = '"' ∨ c = '\\' then some c
  else none

/-- The inside of a string literal up to its closing quote. -/
structure Literal where
  value : List Char
  closed : Bool
  faults : List (Spanned LexicalFault)
  stop : Nat
  rest : List Char

namespace Literal

def unterminated (start stop : Nat) (rest : List Char) : Literal :=
  ⟨[], false, [⟨.unterminated, ⟨start, stop⟩⟩], stop, rest⟩

def push (c : Char) (s : Literal) : Literal := { s with value := c :: s.value }

def fault (f : Spanned LexicalFault) (s : Literal) : Literal :=
  { s with faults := f :: s.faults }

/-- Reads from `pos` on in a literal whose opening quote is at `start`. A line feed ends the
literal, unless a backslash stands before it. -/
def read (start pos : Nat) : List Char → Literal
  | [] => unterminated start pos []
  | c :: rest =>
    if c = '\n' then unterminated start (pos + 1) rest
    else if c = '"' then ⟨[], true, [], pos + 1, rest⟩
    else if c = '\\' then
      match rest with
      | [] => unterminated start (pos + 1) []
      | e :: more =>
        let stop := pos + 1 + e.utf8Size
        match unescape e with
        | some d => (read start stop more).push d
        | none => (read start stop more).fault ⟨.unknownEscape e, ⟨start, stop⟩⟩
    else (read start (pos + c.utf8Size) rest).push c

def lexeme (s : Literal) : Lexeme :=
  ⟨if s.closed then some (.text (String.ofList s.value)) else none, s.faults, s.stop, s.rest⟩

end Literal

/-- The operator or punctuation mark that the characters begin with, the longer one first, the
number of its characters and what follows it. -/
def sign? (c : Char) (cs : List Char) : Option (TokenKind × Nat × List Char) :=
  let double := match cs with
    | d :: more => (Operator.ofSpelling? (String.ofList [c, d])).map (.operator ·, 2, more)
    | [] => none
  let single := (Operator.ofSpelling? (String.singleton c)).map (.operator ·, 1, cs)
  let mark := (Punctuation.ofSpelling? (String.singleton c)).map (.punctuation ·, 1, cs)
  double <|> single <|> mark

/-- The lexeme at `start` of the text `c :: cs`. -/
def lexeme (start : Nat) (c : Char) (cs : List Char) : Lexeme :=
  if isBlank c then ⟨none, [], start + 1, cs⟩
  else if c = '/' ∧ cs.head? = some '/' then
    let comment := cs.takeWhile (· != '\n')
    ⟨none, [], start + 1 + byteLength comment, cs.dropWhile (· != '\n')⟩
  else if c = '"' then (Literal.read start (start + 1) cs).lexeme
  else if isDigit c then run start c cs continuesInteger readInteger
  else if startsName c then run start c cs continuesName readName
  else match sign? c cs with
    | some (kind, length, rest) => ⟨some kind, [], start + length, rest⟩
    | none =>
      let stop := start + c.utf8Size
      let fault := if c = '&' ∨ c = '|' then LexicalFault.halved c else .stray c
      ⟨none, [⟨fault, ⟨start, stop⟩⟩], stop, cs⟩

theorem Literal.read_rest_le (start pos : Nat) (cs : List Char) :
    (read start pos cs).rest.length ≤ cs.length := by
  fun_induction read start pos cs <;> simp_all [unterminated, push, fault] <;> omega

theorem sign?_rest_le {c : Char} {cs : List Char} {kind : TokenKind} {length : Nat}
    {rest : List Char} (h : sign? c cs = some (kind, length, rest)) :
    rest.length ≤ cs.length := by
  unfold sign? at h
  cases cs with
  | nil => simp at h; grind
  | cons d more => simp at h; grind

theorem dropWhile_length_le (p : Char → Bool) (cs : List Char) :
    (cs.dropWhile p).length ≤ cs.length := (List.dropWhile_sublist p).length_le

theorem run_rest (start : Nat) (c : Char) (cs : List Char) (p : Char → Bool)
    (read : List Char → Except LexicalFault TokenKind) :
    (run start c cs p read).rest = cs.dropWhile p := by
  unfold run
  simp only
  split <;> rfl

theorem lexeme_rest_le (start : Nat) (c : Char) (cs : List Char) :
    (lexeme start c cs).rest.length ≤ cs.length := by
  fun_cases lexeme start c cs with
  | case1 => simp
  | case2 => simpa using dropWhile_length_le ..
  | case3 => simpa [Literal.lexeme] using Literal.read_rest_le ..
  | case4 => simpa [run_rest] using dropWhile_length_le ..
  | case5 => simpa [run_rest] using dropWhile_length_le ..
  | case6 _ _ _ _ _ kind length rest h => simpa using sign?_rest_le h
  | case7 => simp

/-- The lexemes of a text whose first byte is at `pos`. -/
def lexemes (pos : Nat) : List Char → List (Nat × Lexeme)
  | [] => []
  | c :: cs =>
    let x := lexeme pos c cs
    (pos, x) :: lexemes x.stop x.rest
termination_by cs => cs.length
decreasing_by exact Nat.lt_succ_of_le (lexeme_rest_le pos c cs)

/-- The token of a lexeme that starts at `start`. -/
def ofLexeme? (start : Nat) (x : Lexeme) : Option Token :=
  x.kind.map (⟨·, ⟨start, x.stop⟩⟩)

/-- The tokens of a text followed by the end of the file, or every fault in it. -/
def scan (source : List Char) : Except (List (Spanned LexicalFault)) (List Token) :=
  let found := lexemes 0 source
  match found.flatMap (·.2.faults) with
  | [] => .ok (found.filterMap (fun x => ofLexeme? x.1 x.2)
      ++ [⟨.endOfFile, Span.empty (byteLength source)⟩])
  | faults => .error faults

end Token

end TestBench
