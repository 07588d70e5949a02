import TestBench.Shell.Reader

/-!
The grammar of scripts. Words and commands are read by productions that refer
to one another, since a word may hold a command. Every production is given a
limit on how deeply productions may call each other; a text's length sets it.
-/
namespace TestBench.Shell

open Reading

inductive Enclosure where
  | word
  | quotes
  | braces
  | parentheses (depth : Nat)
  | document
  deriving DecidableEq, Repr

namespace Enclosure

/-- How many characters end the pieces, if they end here. -/
def ends? (e : Enclosure) (rest : List Char) : Option Nat :=
  match e, rest with
  | .word, c :: _ =>
    if [' ', '\t', '\n', ';', '&', '|', '<', '>', '(', ')'].contains c then some 0 else none
  | .quotes, '"' :: _ => some 1
  | .braces, '\x7d' :: _ => some 1
  | .parentheses 0, ')' :: ')' :: _ => some 2
  | .word, [] | .document, [] => some 0
  | _, _ => none

def fault : Enclosure → Fault
  | .braces => .missing "\x7d"
  | .parentheses _ => .missing "))"
  | _ => .unterminatedQuotes

def after (e : Enclosure) (c : Char) : Enclosure :=
  match e, c with
  | .parentheses depth, '(' => .parentheses (depth + 1)
  | .parentheses depth, ')' => .parentheses (depth - 1)
  | _, _ => e

/-- The characters that a backslash inside quotes takes their meaning from. -/
def escapable (e : Enclosure) (c : Char) : Bool :=
  ['$', '\x60', '\\'].contains c || (c == '"' && e != .document) || (c == '\x7d' && e == .braces)

end Enclosure

def literals (quoted : Bool) (cs : List Char) : Word := cs.map (.literal · quoted)

/-- Quotation marks around pieces. Around all arguments they make no word of their own. -/
def marked (w : Word) : Word :=
  match w with
  | [.parameter "@" .value _ _] => w
  | _ => .quotes :: w

def isSpecial (c : Char) : Bool := ['@', '*', '#', '?', '-', '$', '!'].contains c

/-- The name of a parameter: a name, a number or a sign. -/
def parameterName? : Reading (Option String) := do
  match (← get).rest with
  | c :: _ =>
    if isNameStart c then return some (String.ofList (← takeWhile isNameCharacter))
    else if c.isDigit then return some (String.ofList (← takeWhile (·.isDigit)))
    else if isSpecial c then
      advance 1
      return some (String.singleton c)
    else return none
  | [] => return none

/-- What is done with a parameter, and whether a pattern comes next. -/
def use? : Reading (Option (Use × Bool)) := do
  let ofSign (c : Char) (emptyCounts : Bool) : Option Use :=
    match c with
    | '-' => some (.orElse emptyCounts)
    | '=' => some (.orAssign emptyCounts)
    | '?' => some (.orFail emptyCounts)
    | '+' => some (.whenSet emptyCounts)
    | _ => none
  match (← get).rest with
  | '%' :: '%' :: _ => advance 2; return some (.withoutEnd true, true)
  | '%' :: _ => advance 1; return some (.withoutEnd false, true)
  | '#' :: '#' :: _ => advance 2; return some (.withoutStart true, true)
  | '#' :: _ => advance 1; return some (.withoutStart false, true)
  | ':' :: c :: _ =>
    match ofSign c true with
    | some use => advance 2; return some (use, false)
    | none => return none
  | c :: _ =>
    match ofSign c false with
    | some use => advance 1; return some (use, false)
    | none => return none
  | [] => return none

/-- A command between backquotes, in which backslashes have been resolved. -/
def backquoted (quoted : Bool) : List Char → Option (List Char × Nat)
  | [] => none
  | '\x60' :: _ => some ([], 1)
  | '\\' :: '\n' :: rest => (backquoted quoted rest).map fun (cs, n) => (cs, n + 2)
  | '\\' :: c :: rest => (backquoted quoted rest).map fun (cs, n) =>
    if ['$', '\x60', '\\'].contains c || (quoted && c == '"') then (c :: cs, n + 2)
    else ('\\' :: c :: cs, n + 2)
  | c :: rest => (backquoted quoted rest).map fun (cs, n) => (c :: cs, n + 1)

mutual

/-- The pieces up to the end of what surrounds them. -/
def pieces : Nat → Enclosure → Bool → Reading Word
  | 0, e, _ => throw e.fault
  | limit + 1, e, quoted => do
    let rest := (← get).rest
    match e.ends? rest, rest with
    | some count, _ =>
      advance count
      return []
    | none, [] => throw e.fault
    | none, c :: _ =>
      advance 1
      let first ← piece limit e quoted c
      return first ++ (← pieces limit (e.after c) quoted)

def piece : Nat → Enclosure → Bool → Char → Reading Word
  | 0, e, _, _ => throw e.fault
  | limit + 1, e, quoted, c => do
    match c with
    | '\\' =>
      match (← get).rest with
      | [] => return [.literal '\\' true]
      | '\n' :: _ => advance 1; return []
      | d :: _ =>
        if quoted && !e.escapable d then return [.literal '\\' true]
        else
          advance 1
          return [.literal d true]
    | '\'' =>
      if quoted then return [.literal c true]
      else
        let text ← takeWhile (· != '\'')
        if (← get).rest.isEmpty then throw .unterminatedQuotes
        advance 1
        return .quotes :: literals true text
    | '"' =>
      if e == .document then return [.literal c true]
      else if quoted && e != .braces then return []
      else return marked (← pieces limit .quotes true)
    | '$' => expansion limit quoted
    | '\x60' =>
      match backquoted quoted (← get).rest with
      | none =>
        advance (← get).rest.length
        throw .unterminatedCommand
      | some (text, size) =>
        advance size
        let body ← within text do
          let body ← list limit
          let l ← peek limit
          if l.isEnd then return body else unexpected l none
        return [.output body quoted]
    | _ => return [.literal c quoted]

def expansion : Nat → Bool → Reading Word
  | 0, _ => throw (.missing ")")
  | limit + 1, quoted => do
    match (← get).rest with
    | '(' :: '(' :: _ =>
      advance 2
      return [.arithmetic (← pieces limit (.parentheses 0) true) quoted]
    | '(' :: _ =>
      advance 1
      let body ← list limit
      expectOperator limit ")"
      return [.output body quoted]
    | '\x7b' :: _ =>
      advance 1
      return [← braced limit quoted]
    | c :: _ =>
      if c.isDigit then
        advance 1
        return [.parameter (String.singleton c) .value [] quoted]
      else match ← parameterName? with
        | some name => return [.parameter name .value [] quoted]
        | none => return [.literal '$' quoted]
    | [] => return [.literal '$' quoted]

/-- A parameter in braces, after the opening one. -/
def braced : Nat → Bool → Reading Piece
  | 0, _ => throw (.missing "\x7d")
  | limit + 1, quoted => do
    let isLength := match (← get).rest with
      | '#' :: c :: rest => isNameCharacter c || (c != '\x7d' && rest.head? == some '\x7d')
      | _ => false
    if isLength then advance 1
    match ← parameterName? with
    | none =>
      let word ← pieces limit .braces quoted
      return .parameter "" .ill word quoted
    | some name =>
      if (← get).rest.head? = some '\x7d' then
        advance 1
        return .parameter name (if isLength then .length else .value) [] quoted
      else match ← use? with
        | some (use, isPattern) =>
          let word ← pieces limit .braces (quoted && !isPattern)
          return .parameter name (if isLength then .ill else use) word quoted
        | none =>
          let word ← pieces limit .braces quoted
          return .parameter name .ill word quoted

/-- Reads the announced texts that stand at a line's start. -/
def documents : Nat → List Announced → Reading Unit
  | 0, _ => return ()
  | _ + 1, [] => return ()
  | limit + 1, a :: others => do
    let rest := (← get).rest
    let (text, size) := linesUpTo a (rest.length + 1) rest
    let word ← if a.isLiteral then pure (literals true text)
      else within text (pieces limit .document true)
    advance size
    modify fun r => { r with documents := (a.number, word) :: r.documents }
    documents limit others

def peek : Nat → Reading Lexeme
  | 0 => return .endOfFile
  | limit + 1 => do
    match (← get).ahead with
    | some l => return l
    | none =>
      skipBlanks
      let found : Lexeme ← match (← get).rest with
        | [] => pure .endOfFile
        | '\n' :: _ =>
          advance 1
          let announced := (← get).announced
          modify fun r => { r with announced := [] }
          documents limit announced
          pure .newline
        | _ => match ← sign? with
          | some sign => pure sign
          | none => pure (.word (← pieces limit .word false))
      modify fun r => { r with ahead := some found }
      return found

def next : Nat → Reading Lexeme
  | 0 => return .endOfFile
  | limit + 1 => do
    let l ← peek limit
    modify fun r => { r with ahead := none }
    return l

/-- Looks at the next lexeme where a command may begin. A word that stands for another text is
replaced by it, but not while that text is being read. -/
def peekCommand : Nat → Reading Lexeme
  | 0 => return .endOfFile
  | limit + 1 => do
    let l ← peek limit
    let r ← get
    let left := r.rest.length
    let active := r.replaced.filter (·.2 ≤ left)
    match l.plain?.bind fun name => (List.lookup name r.aliases).map (name, ·) with
    | some (name, value) =>
      if Lexeme.reserved.contains name ∨ active.any (·.1 == name) then return l
      set { r with
        rest := value ++ r.rest
        ahead := none
        replaced := (name, left) :: active
        goesOnAt := if value.getLast?.any (fun c => c == ' ' || c == '\t') then some left
          else r.goesOnAt }
      peekCommand limit
    | none => return l

/-- Looks at the next lexeme behind the first word of a command. -/
def peekArgument : Nat → Reading Lexeme
  | 0 => return .endOfFile
  | limit + 1 => do
    match (← get).goesOnAt with
    | none => peek limit
    | some n =>
      let isThere := (← get).ahead.isNone && (← get).rest.length ≤ n
      if isThere then
        modify fun r => { r with goesOnAt := none }
        peekCommand limit
      else
        skipBlanks
        if (← get).ahead.isNone && (← get).rest.length ≤ n then
          modify fun r => { r with goesOnAt := none }
          peekCommand limit
        else peek limit

def expectOperator : Nat → String → Reading Unit
  | 0, _ => return ()
  | limit + 1, text => do
    let l ← next limit
    unless l.isOperator text do unexpected l (some ("\"" ++ text ++ "\""))

def expectWord : Nat → String → Reading Unit
  | 0, _ => return ()
  | limit + 1, text => do
    let l ← next limit
    unless l.isWord text do unexpected l (some ("\"" ++ text ++ "\""))

def skipNewlines : Nat → Reading Unit
  | 0 => return ()
  | limit + 1 => do
    if (← peek limit).isNewline then
      let _ ← next limit
      skipNewlines limit

/-- Commands up to a lexeme that ends a list. -/
def list : Nat → Reading Command
  | 0 => throw (.unexpected Lexeme.endOfFile.describe none)
  | limit + 1 => do
    skipNewlines limit
    if (← peekCommand limit).closesList then return .nothing else filledList limit

/-- Commands up to a lexeme that ends a list. There has to be one at least, or nothing is left. -/
def filledList : Nat → Reading Command
  | 0 => throw (.unexpected Lexeme.endOfFile.describe none)
  | limit + 1 => do
    skipNewlines limit
    if (← peekCommand limit).isEnd then return .nothing
    let first ← conditions limit
    let l ← peek limit
    if l.isOperator "&" then
      let _ ← next limit
      return .sequence (.background first) (← list limit)
    else if l.isNewline || l.isOperator ";" then
      let _ ← next limit
      return .sequence first (← list limit)
    else return first

/-- Pipelines that are joined by conditions, from left to right. -/
def conditions : Nat → Reading Command
  | 0 => throw (.unexpected Lexeme.endOfFile.describe none)
  | limit + 1 => do joined limit (← pipeline limit)

def joined : Nat → Command → Reading Command
  | 0, first => return first
  | limit + 1, first => do
    let l ← peek limit
    if l.isOperator "&&" then
      let _ ← next limit
      skipNewlines limit
      joined limit (.both first (← pipeline limit))
    else if l.isOperator "||" then
      let _ ← next limit
      skipNewlines limit
      joined limit (.either first (← pipeline limit))
    else return first

def pipeline : Nat → Reading Command
  | 0 => throw (.unexpected Lexeme.endOfFile.describe none)
  | limit + 1 => do
    if (← peekCommand limit).isWord "!" then
      let _ ← next limit
      return .negation (← pipeline limit)
    else
      let first ← command limit
      match ← stages limit with
      | [] => return first
      | others => return .pipeline (first :: others)

def stages : Nat → Reading (List Command)
  | 0 => return []
  | limit + 1 => do
    if (← peek limit).isOperator "|" then
      let _ ← next limit
      skipNewlines limit
      let stage ← command limit
      return stage :: (← stages limit)
    else return []

def command : Nat → Reading Command
  | 0 => throw (.unexpected Lexeme.endOfFile.describe none)
  | limit + 1 => do
    let l ← peekCommand limit
    let line := (← get).line
    if l.isOperator "(" then
      let _ ← next limit
      let body ← filledList limit
      expectOperator limit ")"
      redirected limit line (.subshell body)
    else match l, l.plain? with
      | .redirection .., _ => simple limit line [] [] []
      | .word _, some text =>
        if ["if", "while", "until", "for", "case", "\x7b"].contains text then
          let _ ← next limit
          redirected limit line (← compound limit line text)
        else if Lexeme.reserved.contains text ∧ text ≠ "in" then unexpected l none
        else simple limit line [] [] []
      | .word _, none => simple limit line [] [] []
      | _, _ => unexpected l none

/-- A command that begins with a reserved word, after this word. -/
def compound : Nat → Nat → String → Reading Command
  | 0, _, _ => throw (.unexpected Lexeme.endOfFile.describe none)
  | limit + 1, line, text => do
    match text with
    | "if" => condition limit
    | "while" => repetition limit true
    | "until" => repetition limit false
    | "for" => forEach limit line
    | "case" =>
      let l ← next limit
      match l with
      | .word subject =>
        skipNewlines limit
        expectWord limit "in"
        return .choice line subject (← arms limit)
      | _ => unexpected l (some "word")
    | _ =>
      let body ← filledList limit
      expectWord limit "\x7d"
      return body

def redirected : Nat → Nat → Command → Reading Command
  | 0, _, body => return body
  | limit + 1, line, body => do
    match ← redirections limit with
    | [] => return body
    | found => return .redirected line body found

def redirections : Nat → Reading (List Redirection)
  | 0 => return []
  | limit + 1 => do
    match ← peek limit with
    | .redirection .. =>
      let first ← redirection limit
      return first :: (← redirections limit)
    | _ => return []

def redirection : Nat → Reading Redirection
  | 0 => throw (.unexpected "redirection" none)
  | limit + 1 => do
    let sign ← next limit
    let target ← next limit
    match sign, target with
    | .redirection descriptor spelling, .word w =>
      let standard := if spelling.toList.head? = some '<' then 0 else 1
      let opening : Opening ← match spelling with
        | "<<" => pure (.document (← announce w false))
        | "<<-" => pure (.document (← announce w true))
        | ">>" => pure .appending
        | "<&" | ">&" => pure .copying
        | "<>" => pure .updating
        | ">" => pure .writing
        | ">|" => pure .overwriting
        | _ => pure .reading
      return .redirect (descriptor.getD standard) opening w
    | _, l => unexpected l none

/-- What stands between the word `if` and the word `fi`. -/
def condition : Nat → Reading Command
  | 0 => throw (.unexpected Lexeme.endOfFile.describe (some "\"fi\""))
  | limit + 1 => do
    let test ← filledList limit
    expectWord limit "then"
    let yes ← filledList limit
    let l ← next limit
    if l.isWord "elif" then return .branch test yes (← condition limit)
    else if l.isWord "else" then
      let no ← filledList limit
      expectWord limit "fi"
      return .branch test yes no
    else if l.isWord "fi" then return .branch test yes .nothing
    else unexpected l (some "\"fi\"")

def repetition : Nat → Bool → Reading Command
  | 0, _ => throw (.unexpected Lexeme.endOfFile.describe (some "\"done\""))
  | limit + 1, goal => do
    let test ← filledList limit
    expectWord limit "do"
    let body ← filledList limit
    expectWord limit "done"
    return .repeated goal test body

def forEach : Nat → Nat → Reading Command
  | 0, _ => throw .badVariable
  | limit + 1, line => do
    let l ← next limit
    match l.plain? with
    | some name =>
      unless isName name.toList do throw .badVariable
      skipNewlines limit
      let given : Option (List Word) ← if (← peek limit).isWord "in" then
          let _ ← next limit
          let found ← wordList limit
          let l ← next limit
          unless l.isNewline || l.isOperator ";" do unexpected l none
          pure (some found)
        else
          if (← peek limit).isOperator ";" then
            let _ ← next limit
          pure none
      skipNewlines limit
      expectWord limit "do"
      let body ← filledList limit
      expectWord limit "done"
      return .forEach line name given body
    | none => throw .badVariable

def wordList : Nat → Reading (List Word)
  | 0 => return []
  | limit + 1 => do
    match ← peek limit with
    | .word w =>
      let _ ← next limit
      return w :: (← wordList limit)
    | _ => return []

/-- The arms of a choice, up to the word `esac`. -/
def arms : Nat → Reading (List (List Word × Command))
  | 0 => throw (.unexpected Lexeme.endOfFile.describe none)
  | limit + 1 => do
    skipNewlines limit
    if (← peek limit).isWord "esac" then
      let _ ← next limit
      return []
    else
      if (← peek limit).isOperator "(" then
        let _ ← next limit
      let found ← patterns limit
      expectOperator limit ")"
      let body ← list limit
      let l ← peek limit
      if l.isOperator ";;" then
        let _ ← next limit
        return (found, body) :: (← arms limit)
      else if l.isWord "esac" then
        let _ ← next limit
        return [(found, body)]
      else unexpected l (some "\";;\"")

def patterns : Nat → Reading (List Word)
  | 0 => return []
  | limit + 1 => do
    let l ← next limit
    match l with
    | .word w =>
      if (← peek limit).isOperator "|" then
        let _ ← next limit
        return w :: (← patterns limit)
      else return [w]
    | _ => unexpected l (some "\")\"")

/-- Assignments, words and redirections in one, or the definition of a function. -/
def simple : Nat → Nat → List (String × Word) → List Word → List Redirection → Reading Command
  | 0, line, assignments, words, found => return .simple line assignments words found
  | limit + 1, line, assignments, words, found => do
    let l ← if words.isEmpty then peekCommand limit else peekArgument limit
    match l with
    | .word w =>
      let _ ← next limit
      match if words.isEmpty then w.assignment? else none with
      | some a => simple limit line (assignments ++ [a]) words found
      | none => simple limit line assignments (words ++ [w]) found
    | .redirection .. =>
      let r ← redirection limit
      simple limit line assignments words (found ++ [r])
    | _ =>
      if l.isOperator "(" ∧ words.length = 1 ∧ assignments.isEmpty ∧ found.isEmpty then
        let _ ← next limit
        match ← next limit with
        | .word _ => throw (.unexpected "word" (some "\")\""))
        | l => unless l.isOperator ")" do unexpected l (some "\")\"")
        match (words.head?.bind Word.plain?) with
        | some name =>
          unless isName name.toList do throw .badFunctionName
          skipNewlines limit
          return .define name (← command limit)
        | none => throw .badFunctionName
      else return .simple line assignments words found

end

/-- The commands of a line, up to and with its end. -/
def lineRest (limit : Nat) : Nat → Reading Command
  | 0 => return .nothing
  | count + 1 => do
    let first ← conditions limit
    let l ← next limit
    if l.isNewline || l.isEnd then return first
    else if l.isOperator ";" || l.isOperator "&" then
      let first := if l.isOperator "&" then .background first else first
      let l ← peek limit
      if l.isNewline || l.isEnd then
        let _ ← next limit
        return first
      else return .sequence first (← lineRest limit count)
    else unexpected l none

/-- The commands that begin on the next line, unless nothing is left. -/
def completeLine? : Reading (Option Command) := do
  let r ← get
  let added := r.aliases.foldl (fun n a => n + a.2.length + 1) 0
  let limit := 12 * (r.rest.length + 16 * added) + 64
  let l ← peekCommand limit
  if l.isEnd then return none
  else if l.isNewline then
    let _ ← next limit
    return some .nothing
  else return some (← lineRest limit limit)

/-- A reader of a script whose documents are counted from a number on. -/
def Reader.start (text : List Char) (firstNumber : Nat) : Reader :=
  ⟨text, 1, none, [], [], firstNumber, [], [], none⟩

end TestBench.Shell
