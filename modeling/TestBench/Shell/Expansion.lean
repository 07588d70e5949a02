import TestBench.Shell.Arithmetic
import TestBench.Shell.Fields
import TestBench.Shell.Session

/-!
From words to the texts they mean. The pieces of a word become characters that
remember where they come from; these are split into fields, and fields that are
patterns become the names of files.
-/
namespace TestBench.Shell

namespace Names

def sorted (names : List (List Char)) : List (List Char) :=
  names.mergeSort fun a b => !(String.ofList b < String.ofList a)

/-- The names in a directory that a pattern accepts. Hidden ones need a dot in the pattern. -/
def inDirectory (files : Files) (directory : List Char) (pattern : List Marked) :
    List (List Char) :=
  let path := if directory.isEmpty then ['.'] else directory
  match files.list (pathOf path) with
  | .error _ => []
  | .ok names =>
    let marks := Pattern.parse pattern
    let all := [['.'], ['.', '.']] ++ names.map octets
    let isHidden (name : List Char) : Bool := name.head? == some '.'
    sorted (all.filter fun name =>
      Pattern.accepts marks name && (!isHidden name || (pattern.head?.map (·.1)) == some '.'))

def splitAtSlashes : List Marked → List (List Marked)
  | [] => [[]]
  | m :: rest =>
    match splitAtSlashes rest with
    | [] => [[m]]
    | piece :: more => if m.1 = '/' then [] :: piece :: more else (m :: piece) :: more

/-- The paths that begin with a path and go on by pieces of a pattern. -/
def pathsFrom (files : Files) (start : List Char) : List (List Marked) → List (List Char)
  | [] => []
  | [last] =>
    if Pattern.isActive last then (inDirectory files start last).map (start ++ ·)
    else
      let path := start ++ last.map (·.1)
      if (files.find (pathOf path)).isOk then [path] else []
  | piece :: next :: rest =>
    if Pattern.isActive piece then
      (inDirectory files start piece).flatMap fun name =>
        if files.isDirectory (pathOf (start ++ name)) then
          pathsFrom files (start ++ name ++ ['/']) (next :: rest)
        else []
    else pathsFrom files (start ++ piece.map (·.1) ++ ['/']) (next :: rest)

/-- The paths that a field stands for: itself, unless it is a pattern that accepts others. -/
def ofField (s : Session) (field : List Marked) : List (List Char) :=
  if s.shell.has 'f' || !Pattern.isActive field then [field.map (·.1)]
  else match pathsFrom s.view [] (splitAtSlashes field) with
    | [] => [field.map (·.1)]
    | found => found

end Names

abbrev OutputOf := Command → Act (List Char)

namespace Expansion

/-- The bits of a parameter as it is. -/
def valueBits (name : String) (quoted : Bool) : Act (List Bit) := do
  let sh := (← get).shell
  match name with
  | "@" => return Bit.ofValues quoted sh.arguments
  | "*" =>
    if quoted then return Bit.ofValue true (sh.joint.intercalate sh.arguments)
    else return Bit.ofValues false sh.arguments
  | _ =>
    match sh.value? name with
    | some cs => return Bit.ofValue quoted cs
    | none =>
      if sh.has 'u' then fail (octets (name ++ ": parameter not set"))
      else return []

def calculate (expression : List Char) : Act (List Char) := do
  let sh := (← get).shell
  let lookup (name : String) : List Char := (sh.value? name).getD []
  match Arithmetic.evaluate lookup (Arithmetic.parse expression) [] with
  | .error e => fail (e.message expression)
  | .ok (n, assigned) =>
    assigned.reverse.forM fun (name, m) => assign name (toString m).toList
    return (toString n).toList

/-- The directory of a user, who is the one who runs the shell if no name is given. -/
def home? (sh : ShellState) (user : List Char) : Option (List Char) :=
  if user.isEmpty then sh.value? "HOME"
  else if user = octets "root" then some (octets "/root")
  else none

/-- What a tilde and the name of a user at the start of a word stand for, and the rest of it. -/
def home (sh : ShellState) (ends : List Char) : Word → Option (Word × Word)
  | .literal '~' false :: rest =>
    let name := rest.takeWhile fun
      | .literal c false => !ends.contains c
      | _ => false
    let others := rest.drop name.length
    let isWhole := match others with
      | [] | .literal _ false :: _ => true
      | _ => false
    if isWhole then
      (home? sh (((Word.text? name).map (·.1)).getD [])).map fun path =>
        (path.map (.literal · true), others)
    else none
  | _ => none

/-- A word with a directory in place of a tilde at its start. -/
def atHome (sh : ShellState) (w : Word) : Word :=
  match home sh ['/'] w with
  | some (path, rest) => path ++ rest
  | none => w

/-- A word with directories in place of tildes at its start and behind colons. -/
def atHomes (sh : ShellState) : Nat → Word → Word
  | 0, w => w
  | limit + 1, w =>
    let (path, rest) := (home sh ['/', ':'] w).getD ([], w)
    let first := rest.takeWhile fun
      | .literal ':' false => false
      | _ => true
    match rest.drop first.length with
    | [] => path ++ rest
    | colon :: others => path ++ first ++ colon :: atHomes sh limit others

/-- The bits of a word that has been expanded, with a directory in place of a tilde at its start. -/
def withHome (sh : ShellState) (w : Word) (found : List Bit) : List Bit :=
  match home sh ['/'] w with
  | some (path, rest) => path.filterMap asBit ++ found.drop (w.length - rest.length)
  | none => found
where
  asBit : Piece → Option Bit
    | .literal c _ => some (.kept c)
    | _ => none

mutual

def bits (outputOf : OutputOf) : Word → Act (List Bit)
  | [] => return []
  | p :: rest => do
    let first ← pieceBits outputOf p
    return first ++ (← bits outputOf rest)

def pieceBits (outputOf : OutputOf) : Piece → Act (List Bit)
  | .literal c quoted => return [if quoted then .kept c else .active c]
  | .quotes => return [.mark]
  | .output body quoted => do return Bit.ofValue quoted (← outputOf body)
  | .arithmetic expression quoted => do
    let text := Bit.text (← get).shell.joint (← bits outputOf expression)
    return Bit.ofValue quoted (← calculate text)
  | .parameter name use word quoted => do
    let sh := (← get).shell
    let value := sh.value? name
    let isMissing (emptyCounts : Bool) : Bool := match value with
      | none => true
      | some cs => emptyCounts && cs.isEmpty
    match use with
    | .value => valueBits name quoted
    | .length =>
      let cs ← match value with
        | some cs => pure cs
        | none => do pure (Bit.text sh.joint (← valueBits name quoted))
      return Bit.ofValue quoted (toString cs.length).toList
    | .orElse emptyCounts =>
      if isMissing emptyCounts then
        let found ← bits outputOf word
        return if quoted then found else Bit.loosened false (withHome sh word found)
      else valueBits name quoted
    | .whenSet emptyCounts =>
      if isMissing emptyCounts then return []
      else
        let found ← bits outputOf word
        return if quoted then found else Bit.loosened false (withHome sh word found)
    | .orAssign emptyCounts =>
      if isMissing emptyCounts then
        let found ← bits outputOf word
        let cs := Bit.text sh.joint (if quoted then found else withHome sh word found)
        assign name cs
        return Bit.ofValue quoted cs
      else valueBits name quoted
    | .orFail emptyCounts =>
      if isMissing emptyCounts then
        let cs := Bit.text sh.joint (← bits outputOf word)
        let standard := "parameter not set" ++ if emptyCounts then " or null" else ""
        fail (octets (name ++ ": ") ++ if word.isEmpty then octets standard else cs)
      else valueBits name quoted
    | .withoutStart longest =>
      let marks := Pattern.parse (Bit.marked sh.joint (← bits outputOf word))
      let cs := Bit.text sh.joint (← valueBits name quoted)
      return Bit.ofValue quoted (Pattern.withoutStart longest marks cs)
    | .withoutEnd longest =>
      let marks := Pattern.parse (Bit.marked sh.joint (← bits outputOf word))
      let cs := Bit.text sh.joint (← valueBits name quoted)
      return Bit.ofValue quoted (Pattern.withoutEnd longest marks cs)
    | .ill => fail (octets "Bad substitution")

end

def wordBits (outputOf : OutputOf) (w : Word) : Act (List Bit) := do
  bits outputOf (atHome (← get).shell w)

/-- The text of a word that is not split. -/
def text (outputOf : OutputOf) (w : Word) : Act (List Char) := do
  return Bit.text (← get).shell.joint (← wordBits outputOf w)

/-- The text that is assigned to a variable. -/
def value (outputOf : OutputOf) (w : Word) : Act (List Char) := do
  return Bit.text (← get).shell.joint (← bits outputOf (atHomes (← get).shell (w.length + 1) w))

def pattern (outputOf : OutputOf) (w : Word) : Act (List Mark) := do
  return Pattern.parse (Bit.marked (← get).shell.joint (← bits outputOf w))

def fields (outputOf : OutputOf) (words : List Word) : Act (List (List Char)) := do
  let found ← words.mapM fun w => do
    let bs ← wordBits outputOf w
    let s ← get
    return (fieldsOfBits s.shell.separators bs).flatMap (Names.ofField s)
  return found.flatten

end Expansion

end TestBench.Shell
