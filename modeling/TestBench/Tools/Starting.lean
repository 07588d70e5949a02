import TestBench.Shell.Builtins
import TestBench.Tools.Text

/-!
The program that starts another one, with other variables or elsewhere.
-/
namespace TestBench.Tools.Starting

open Shell

/-- The status when a program cannot be started. -/
def unstarted (e : FileError) : Nat :=
  if e = .notFound ∨ e = .notDirectory ∨ e = .nameTooLong then 127 else 126

/-- Takes the status of a program that has been started. A signal that ended it ends this one. -/
def pass (status : ExitStatus) : Act Nat :=
  match status with
  | .code n => return n
  | .signal n => throw (.killed n)

/-- Starts a program, or says that it cannot be started. -/
def startOr (start : Starter) (c : Call) (words : List (List Char))
    (complaint : List Char → List Char) : Act (Except Nat ExitStatus) := do
  let name := words.headD []
  match ← start name words.tail with
  | .ok status => return .ok status
  | .error e =>
    c.complain (complaint name ++ octets (": " ++ e.reason))
    return .error (unstarted e)

namespace Environment

/-- The words of a text with quotation marks, backslashes and variables in it. -/
def words (sh : ShellState) : Nat → Option (List Char) → Option Char → List Char →
    List (List Char)
  | 0, current, _, _ | _, current, _, [] => current.toList
  | limit + 1, current, quote, c :: rest =>
    let add (cs : List Char) (rest : List Char) : List (List Char) :=
      words sh limit (some (current.getD [] ++ cs)) quote rest
    match quote, c, rest with
    | some q, _, _ =>
      if c = q then words sh limit (some (current.getD [])) none rest
      else match c, rest with
        | '\\', d :: rest =>
          if d = q ∨ d = '\\' then add [d] rest
          else if q = '"' then add (escape d) rest else add ['\\', d] rest
        | _, _ => if q = '"' ∧ c = '$' then expand add rest else add [c] rest
    | none, '\\', d :: rest =>
      if d = '_' then current.toList ++ words sh limit none none rest else add (escape d) rest
    | none, '$', _ => expand add rest
    | none, _, _ =>
      if c = '\'' ∨ c = '"' then words sh limit (some (current.getD [])) (some c) rest
      else if isSpaceCharacter c then current.toList ++ words sh limit none none rest
      else if c = '#' ∧ current.isNone then []
      else add [c] rest
where
  escape (d : Char) : List Char :=
    match d with
    | 'n' => ['\n']
    | 't' => ['\t']
    | 'r' => ['\r']
    | 'f' => ['\x0c']
    | 'v' => ['\x0b']
    | _ => [d]
  expand (add : List Char → List Char → List (List Char)) (rest : List Char) :
      List (List Char) :=
    match rest with
    | '\x7b' :: inner =>
      let name := inner.takeWhile (· != '\x7d')
      add (((sh.known? (String.ofList name)).bind (·.value)).getD []) (inner.drop (name.length + 1))
    | _ => add ['$'] rest

/-- What is said about arguments that have not been split. -/
def unsplit : String := "use -[v]S to pass options in shebang lines"

def failure : Nat := 125

def show_ (c : Call) : Act Nat := do
  let ending := if c.has "0" then ['\x00'] else ['\n']
  (← get).shell.environment.forM fun (n, v) =>
    print (octets (n ++ "=") ++ v.value.getD [] ++ ending)
  return 0

/-- Sets the variables that operands are assignments to, and comes back with the others. -/
def assignAll : List (List Char) → Act (List (List Char))
  | [] => return []
  | w :: rest => do
    if w.contains '=' then
      let name := w.takeWhile (· != '=')
      unless name.isEmpty do
        changeShell (·.setVariable (String.ofList name)
          ⟨some (w.drop (name.length + 1)), true, false⟩)
      assignAll rest
    else return w :: rest

def run (start : Starter) (c : Call) : Act Nat := do
  let isBare := c.operands.head? = some ['-']
  let operands := if isBare then c.operands.tail else c.operands
  let sh := (← get).shell
  let split := (c.values "S").flatMap fun text => words sh (text.length + 1) none none text
  if let some ill := (c.values "u").find? fun n => n.contains '=' || n.isEmpty then
    c.complain (octets "cannot unset " ++ c.cited ill ++ octets ": Invalid argument")
    return failure
  if isBare ∨ c.has "i" then changeShell fun sh => { sh with memory := [] }
  (c.values "u").forM fun n => changeShell (·.unset (String.ofList n))
  let rest ← assignAll (split ++ operands)
  if let some directory := c.value? "C" then
    let files := (← get).view
    match files.locate (pathOf directory), files.isDirectory (pathOf directory) with
    | .ok place, true => changeShell fun sh => { sh with directory := place }
    | .error e, _ =>
      c.complain (octets "cannot change directory to " ++ Call.marked directory
        ++ octets (": " ++ e.reason))
      return failure
    | .ok _, false =>
      c.complain (octets "cannot change directory to " ++ Call.marked directory
        ++ octets (": " ++ FileError.notDirectory.reason))
      return failure
  if rest.isEmpty then return ← show_ c
  if c.has "v" then
    say (octets "executing: " ++ rest.headD [])
    (rest.zipIdx).forM fun (w, n) =>
      say (octets "   arg[" ++ digitsText n ++ octets "]= " ++ c.cited w)
  let result ← startOr start c rest c.cited
  match result with
  | .ok status => pass status
  | .error n =>
    if (rest.headD []).contains ' ' then c.complain (octets unsplit)
    return n

/-- The first argument of a file's first line is not split: options that have a blank behind them
are none, which is explained. -/
def tool : Tool :=
  { Tool.starting "iu:0C:S:v" [flag "ignore-environment" "i", valued "unset" "u", flag "null" "0",
      valued "chdir" "C", valued "split-string" "S", flag "debug" "v",
      ⟨"block-signal", "block-signal", .perhaps⟩, ⟨"default-signal", "default-signal", .perhaps⟩,
      ⟨"ignore-signal", "ignore-signal", .perhaps⟩] failure run with
    hint := fun arguments =>
      if arguments.any fun a => a.head? = some '-' ∧ a.contains ' ' then some unsplit else none }

end Environment

end TestBench.Tools.Starting
