/-!
Commands as trees. Words are made of pieces, and a piece may be what another
command prints.
-/
namespace TestBench.Shell

/-- What becomes of the value of a parameter. An empty value may count as none. -/
inductive Use where
  | value
  | length
  | orElse (emptyCounts : Bool)
  | orAssign (emptyCounts : Bool)
  | orFail (emptyCounts : Bool)
  | whenSet (emptyCounts : Bool)
  | withoutStart (longest : Bool)
  | withoutEnd (longest : Bool)
  | ill
  deriving DecidableEq, Repr

inductive Opening where
  | reading
  | writing
  /-- Writing even where what is there should be kept. -/
  | overwriting
  | appending
  | updating
  | copying
  /-- The text that is known by a number. -/
  | document (number : Nat)
  deriving DecidableEq, Repr

mutual

inductive Piece where
  | literal (c : Char) (quoted : Bool)
  /-- Quotation marks, around whatever comes next. -/
  | quotes
  | parameter (name : String) (use : Use) (word : List Piece) (quoted : Bool)
  | output (body : Command) (quoted : Bool)
  | arithmetic (expression : List Piece) (quoted : Bool)

inductive Redirection where
  | redirect (descriptor : Nat) (opening : Opening) (target : List Piece)

inductive Command where
  | nothing
  | simple (line : Nat) (assignments : List (String × List Piece)) (words : List (List Piece))
      (redirections : List Redirection)
  | redirected (line : Nat) (body : Command) (redirections : List Redirection)
  | pipeline (stages : List Command)
  | negation (body : Command)
  | both (first second : Command)
  | either (first second : Command)
  | sequence (first second : Command)
  | background (body : Command)
  | subshell (body : Command)
  | branch (condition yes no : Command)
  | repeated (goal : Bool) (condition body : Command)
  | forEach (line : Nat) (name : String) (words : Option (List (List Piece))) (body : Command)
  | choice (line : Nat) (subject : List Piece) (arms : List (List (List Piece) × Command))
  | define (name : String) (body : Command)

end

abbrev Word := List Piece

/-- The characters of a word that is all text, and whether any of it is quoted. -/
def Word.text? : Word → Option (List Char × Bool)
  | [] => some ([], false)
  | .literal c quoted :: rest => (Word.text? rest).map fun (cs, q) => (c :: cs, quoted || q)
  | .quotes :: rest => (Word.text? rest).map fun (cs, _) => (cs, true)
  | _ => none

/-- The text of a word without quotation marks and expansions. -/
def Word.plain? (w : Word) : Option String :=
  match Word.text? w with
  | some (cs, false) => some (String.ofList cs)
  | _ => none

def isNameStart (c : Char) : Bool := c.isAlpha || c == '_'

def isNameCharacter (c : Char) : Bool := isNameStart c || c.isDigit

def isName (cs : List Char) : Bool :=
  match cs with
  | [] => false
  | c :: rest => isNameStart c && rest.all isNameCharacter

/-- The name and the value of an assignment, if a word is one. -/
def Word.assignment? (w : Word) : Option (String × Word) :=
  let name := w.takeWhile fun
    | .literal c false => c != '='
    | _ => false
  match Word.text? name, w.drop name.length with
  | some (cs, false), .literal '=' false :: value =>
    if isName cs then some (String.ofList cs, value) else none
  | _, _ => none

end TestBench.Shell
