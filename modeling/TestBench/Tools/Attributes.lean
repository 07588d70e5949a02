import TestBench.Tools.Directories

/-!
What is said about files is changed: when they were written, and who may do what
with them.
-/
namespace TestBench.Tools

open Shell

def presentTime : Act Nat := return (← get).files.now

namespace Touching

/-- The time that files are given, or what is wrong with it. -/
def timeFor (c : Call) : Act (Except (List Char) Nat) := do
  match c.value? "r" with
  | some path =>
    let files := (← get).view
    match files.find (pathOf path) with
    | .ok e => return .ok (files.changedAt e)
    | .error e => return .error (octets "failed to get attributes of " ++ Call.marked path
        ++ octets (": " ++ e.reason))
  | none => return .ok (← presentTime)

def touchOne (c : Call) (time : Nat) (path : List Char) : Act Bool := do
  let files := (← get).view
  let refuse (what : String) (e : FileError) : Act Bool := do
    c.failed what path e
    return false
  match files.locate (pathOf path) with
  | .error e => if c.has "c" ∧ e = .notFound then return true else refuse "cannot touch" e
  | .ok place =>
    match files.entry? place, c.has "c", files.parentError? place with
    | some _, _, _ =>
      if !c.has "a" ∨ c.has "m" then modify (·.update (files.setTime place time))
      return true
    | none, true, _ => return true
    | none, false, some e => refuse "cannot touch" e
    | none, false, none =>
      if path.getLast? = some '/' then refuse "setting times of" .notFound
      else
        let made := files.create place (files.allowed 0o666) []
        modify (·.update (made.setTime place time))
        return true

def run (c : Call) : Act Nat := do
  match ← timeFor c with
  | .error message =>
    c.complain message
    return 1
  | .ok time =>
    if c.operands.isEmpty then c.misused 1 (octets "missing file operand")
    else eachOperand c (touchOne c time)

def tool : Tool :=
  .of "acmr:" [flag "no-create" "c", valued "reference" "r"] run

end Touching

namespace Granting

def fourDigits (mode : Nat) : List Char :=
  let digits := Mode.digits mode
  List.replicate (4 - digits.length) '0' ++ digits

/-- A mode with its digits and its letters. -/
def written (mode : Nat) : List Char :=
  fourDigits mode ++ octets " (" ++ Mode.letters mode ++ [')']

/-- Changes the mode of an entry, and tells about this if it is to be told. -/
def changeOne (c : Call) (modeText : List Char) (path : List Char) (place : Location)
    (e : FileEntry) : Act Bool := do
  let s ← get
  let files := s.view
  let old := files.modeOf e
  let new := (Mode.changed? s.shell.mask e.isDirectory modeText old).getD old
  let isNumber := (Mode.octal? modeText).isSome
  let new := if isNumber ∧ e.isDirectory ∧ modeText.length ≤ 4 then new ||| (old &&& 0o6000)
    else new
  modify (·.update (files.setMode place new))
  if c.has "v" ∨ (c.has "c" ∧ new ≠ old) then
    print (octets "mode of " ++ Call.marked path
      ++ (if new = old then octets " retained as " ++ written old
        else octets " changed from " ++ written old ++ octets (" to ") ++ written new) ++ ['\n'])
  let plain := (Mode.changed? 0 e.isDirectory modeText old).getD old
  if modeText.head? = some '-' ∧ plain ≠ new then
    c.complain (Call.shown path ++ octets ": new permissions are " ++ Mode.letters new
      ++ octets ", not " ++ Mode.letters plain)
    return false
  return true

def changeTree (c : Call) (modeText : List Char) : Nat → List Char → Act Bool
  | 0, _ => return false
  | limit + 1, path => do
    let files := (← get).view
    let refuse (what : String) (e : FileError) : Act Bool := do
      unless c.has "f" do c.failed what path e
      return false
    match files.find (pathOf path), files.locate (pathOf path), files.findEntry (pathOf path) with
    | .error _, _, .ok (.link _) =>
      unless c.has "f" do
        c.complain (octets "cannot operate on dangling symlink " ++ Call.marked path)
      return false
    | .error e, _, _ | _, .error e, _ => refuse "cannot access" e
    | .ok e, .ok place, _ =>
      let fine ← changeOne c modeText path place e
      if c.has "R" ∧ e.isDirectory then
        let inner ← (files.namesAt place).mapM fun n => do
          let inside := inDirectory path (octets n)
          match (← get).view.findEntry (pathOf inside) with
          | .ok (.link _) => return true
          | _ => changeTree c modeText limit inside
        return fine && inner.all id
      return fine

def run (c : Call) : Act Nat := do
  let files := (← get).view
  let isGiven := c.has "reference" || c.has "mode"
  let (modeText, paths) := match c.value? "reference", c.value? "mode", c.operands with
    | some path, _, paths =>
      (match files.find (pathOf path) with
        | .ok e => Mode.digits (files.modeOf e)
        | .error _ => [], paths)
    | none, some text, paths => (text, paths)
    | none, none, first :: rest => (first, rest)
    | none, none, [] => ([], [])
  if !isGiven ∧ c.operands.isEmpty then return ← c.misused 1 (octets "missing operand")
  if paths.isEmpty then
    return ← c.misused 1 (if c.operands.isEmpty then octets "missing operand"
      else octets "missing operand after " ++ c.cited (c.operands.getLast?.getD []))
  if (Mode.changed? 0 false modeText 0).isNone then
    return ← c.misused 1 (octets "invalid mode: " ++ c.cited modeText)
  eachOperand { c with operands := paths } (changeTree c modeText Files.pathLimit)

def base : Tool :=
  .of "Rcfv" [flag "recursive" "R", flag "changes" "c", flag "quiet" "f", flag "silent" "f",
    flag "verbose" "v", valued "reference" "reference",
    valued "mode" "mode", flag "preserve-root" "preserve-root",
    flag "no-preserve-root" "no-preserve-root"]
    run

/-- An argument that takes something away from modes begins with a dash, but is no option. -/
def isChange (argument : List Char) : Bool :=
  match argument with
  | '-' :: c :: _ => "rwxXstugoa0123456789,+-=".toList.contains c && argument ≠ ['-', '-']
      && (argument.take 2 ≠ ['-', '-'])
  | _ => false

/-- Arguments in which what is taken away is the value of an option. -/
def prepared (arguments : List (List Char)) : List (List Char) :=
  arguments.map fun a => if isChange a then octets "--mode=" ++ a else a

end Granting

end TestBench.Tools
