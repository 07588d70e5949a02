import TestBench.Shell.Command

/-!
The state of reading a script. Texts that a line announces stand behind its
end, and are read there.
-/
namespace TestBench.Shell

inductive Fault where
  | unexpected (found : String) (expected : Option String)
  | unterminatedQuotes
  | unterminatedCommand
  | missing (closing : String)
  | badVariable
  | badFunctionName
  deriving DecidableEq, Repr

def Fault.message : Fault → String
  | .unexpected found none => found ++ " unexpected"
  | .unexpected found (some e) => found ++ " unexpected (expecting " ++ e ++ ")"
  | .unterminatedQuotes => "Unterminated quoted string"
  | .unterminatedCommand => "EOF in backquote substitution"
  | .missing closing => "Missing '" ++ closing ++ "'"
  | .badVariable => "Bad for loop variable"
  | .badFunctionName => "Bad function name"

inductive Lexeme where
  | word (w : Word)
  | operator (spelling : String)
  | redirection (descriptor : Option Nat) (spelling : String)
  | newline
  | endOfFile

namespace Lexeme

/-- The words that begin or end a part of a command. -/
def reserved : List String :=
  ["!", "case", "do", "done", "elif", "else", "esac", "fi", "for", "if", "in", "then", "until",
    "while", "\x7b", "\x7d"]

/-- The reserved words that end a list of commands. -/
def closing : List String := ["do", "done", "elif", "else", "esac", "fi", "then", "\x7d"]

def plain? : Lexeme → Option String
  | .word w => w.plain?
  | _ => none

def isWord (text : String) (l : Lexeme) : Bool := l.plain? == some text

def isOperator (text : String) : Lexeme → Bool
  | .operator spelling => spelling == text
  | _ => false

def isNewline : Lexeme → Bool
  | .newline => true
  | _ => false

def isEnd : Lexeme → Bool
  | .endOfFile => true
  | _ => false

/-- Whether a list of commands ends before a lexeme. -/
def closesList (l : Lexeme) : Bool :=
  l.isEnd || l.isOperator ")" || l.isOperator ";;" || closing.any l.isWord

def describe : Lexeme → String
  | .word w => match w.plain? with
    | some text => if reserved.contains text then "\"" ++ text ++ "\"" else "word"
    | none => "word"
  | .operator spelling => "\"" ++ spelling ++ "\""
  | .redirection .. => "redirection"
  | .newline => "newline"
  | .endOfFile => "end of file"

end Lexeme

/-- A text that stands behind the end of a line. -/
structure Announced where
  number : Nat
  delimiter : List Char
  withoutTabs : Bool
  isLiteral : Bool

structure Reader where
  rest : List Char
  line : Nat
  /-- A lexeme that has been looked at. -/
  ahead : Option Lexeme
  announced : List Announced
  documents : List (Nat × Word)
  nextNumber : Nat
  /-- What stands for a word where commands begin. -/
  aliases : List (String × List Char)
  /-- The words that have been replaced, and how much was left of the text behind each of them. -/
  replaced : List (String × Nat)
  /-- How much is left of the text where one more word may be replaced. -/
  goesOnAt : Option Nat

/-- Reads something, or says why not; either way the reader stays where reading stopped. -/
abbrev Reading (α : Type) := ExceptT Fault (StateM Reader) α

namespace Reading

def unexpected {α : Type} (l : Lexeme) (expected : Option String) : Reading α :=
  throw (.unexpected l.describe expected)

def advance (count : Nat) : Reading Unit := modify fun r =>
  { r with
    rest := r.rest.drop count
    line := r.line + (r.rest.take count).count '\n' }

/-- Goes past the characters up to one that does not satisfy `p`. -/
def takeWhile (p : Char → Bool) : Reading (List Char) := do
  let found := (← get).rest.takeWhile p
  advance found.length
  return found

/-- Blanks, joined lines and comments mean nothing between words. -/
def skipped : List Char → Nat
  | ' ' :: rest | '\t' :: rest => skipped rest + 1
  | '\\' :: '\n' :: rest => skipped rest + 2
  | '#' :: rest => (rest.takeWhile (· != '\n')).length + 1
  | _ => 0

def skipBlanks : Reading Unit := do advance (skipped (← get).rest)

/-- The operators, longer ones before those that they begin with. -/
def operators : List String := ["&&", "||", ";;", "&", "|", ";", "(", ")"]

def redirections : List String := ["<<-", "<<", "<&", "<>", "<", ">>", ">&", ">|", ">"]

/-- The first of some spellings that comes next. -/
def next? (spellings : List String) (rest : List Char) : Option String :=
  spellings.find? fun s => s.toList.isPrefixOf rest

/-- The operator or the redirection that comes next. -/
def sign? : Reading (Option Lexeme) := do
  let rest := (← get).rest
  let (digits, target) := match rest with
    | c :: others => if c.isDigit then ([c], others) else ([], rest)
    | [] => ([], [])
  match next? operators rest, next? redirections target with
  | some spelling, _ =>
    advance spelling.length
    return some (.operator spelling)
  | none, some spelling =>
    advance (digits.length + spelling.length)
    return some (.redirection (digits.head?.map fun c => c.toNat - '0'.toNat) spelling)
  | none, none => return none

/-- Announces a text and gives it a number. -/
def announce (delimiter : Word) (withoutTabs : Bool) : Reading Nat := do
  let number := (← get).nextNumber
  let (text, isLiteral) := (Word.text? delimiter).getD ([], false)
  modify fun r =>
    { r with
      announced := r.announced ++ [⟨number, text, withoutTabs, isLiteral⟩]
      nextNumber := number + 1 }
  return number

/-- The lines up to a delimiter, and how many characters they and the delimiter take. -/
def linesUpTo (a : Announced) : Nat → List Char → List Char × Nat
  | 0, _ => ([], 0)
  | _ + 1, [] => ([], 0)
  | limit + 1, cs =>
    let line := cs.takeWhile (· != '\n')
    let shown := if a.withoutTabs then line.dropWhile (· == '\t') else line
    let size := min cs.length (line.length + 1)
    if shown = a.delimiter then ([], size)
    else
      let (text, others) := linesUpTo a limit (cs.drop size)
      (shown ++ '\n' :: text, size + others)

/-- Reads another text in between, and goes on where reading was. -/
def within {α : Type} (text : List Char) (p : Reading α) : Reading α := do
  let outer ← get
  set
    { outer with
      rest := text, ahead := none, announced := [], replaced := [], goesOnAt := none }
  let found ← p
  modify fun r => { outer with documents := r.documents, nextNumber := r.nextNumber }
  return found

end Reading

end TestBench.Shell
