import TestBench.Shell.Grammar
import TestBench.Shell.Redirect

/-!
What surrounds commands while they are performed: loops, functions, and
variables that have their values for one command only.
-/
namespace TestBench.Shell.Frame

/-- Leaves the shell after a failure, if an option asks for it. A command whose status is tested
may fail. -/
def check (tested : Bool) : Act Unit := do
  let sh := (← get).shell
  if !tested && sh.has 'e' && sh.status != 0 then throw .exit

/-- Does something whose arrival at a loop's end is known: whether the loop goes on. -/
def once (act : Act Unit) : Act Bool :=
  tryCatch (do act; return true) fun
    | .leave n => if n ≤ 1 then return false else throw (.leave (n - 1))
    | .again n => if n ≤ 1 then return true else throw (.again (n - 1))
    | other => throw other

def inLoop (act : Act Unit) : Act Unit := do
  changeShell fun sh => { sh with loops := sh.loops + 1 }
  andAlways act (changeShell fun sh => { sh with loops := sh.loops - 1 })

def negate : Act Unit :=
  changeShell fun sh => { sh with status := if sh.status = 0 then 1 else 0 }

/-- Does something that may be left early on its way back. -/
def untilBack (act : Act Unit) : Act Unit :=
  tryCatch act fun
    | .back => return ()
    | other => throw other

/-- A function sees its own arguments, and its own variables are gone afterwards. -/
def inFunction (arguments : List (List Char)) (act : Act Unit) : Act Unit := do
  let outer := (← get).shell
  changeShell fun sh =>
    { sh.withFirstOption with
      arguments := arguments, covered := [], canReturn := true, loops := 0 }
  andAlways (untilBack act)
    (changeShell fun sh =>
      let uncovered := sh.covered.foldl (fun sh (name, v) => match v with
        | some v => sh.setVariable name v
        | none => sh.unset name) sh
      { uncovered with
        arguments := outer.arguments
        covered := outer.covered
        canReturn := outer.canReturn
        loops := outer.loops
        optionIndex := outer.optionIndex
        optionOffset := outer.optionOffset })

abbrev Assignments := List (String × Word)

/-- Assigns values one after the other, so that each of them may use the ones before. -/
def assignAll (outputOf : OutputOf) (isExported : Bool) (assignments : Assignments) :
    Act (List (String × List Char)) :=
  assignments.mapM fun (name, w) => do
    let value ← Expansion.value outputOf w
    assign name value
    if isExported then changeShell (·.mark name)
    return (name, value)

/-- Lets variables have values for as long as something is done. -/
def withVariables (outputOf : OutputOf) (assignments : Assignments)
    (act : List (String × List Char) → Act Unit) : Act Unit := do
  let outer := (← get).shell
  let values ← assignAll outputOf true assignments
  andAlways (act values) (changeShell fun sh => values.foldl (fun sh (name, _) =>
    match outer.known? name with
    | some v => sh.setVariable name v
    | none => sh.unset name) sh)

/-- What the words that declare variables become: an assignment among them is not split. -/
def declared (outputOf : OutputOf) (words : List Word) : Act (List (List Char)) := do
  let found ← words.mapM fun w =>
    match w.assignment? with
    | some (name, value) => do
      return [octets (name ++ "=") ++ (← Expansion.value outputOf value)]
    | none => Expansion.fields outputOf [w]
  return found.flatten

def declaring : List String := ["export", "readonly", "local", "alias"]

def fieldsOf (outputOf : OutputOf) (words : List Word) : Act (List (List Char)) :=
  match words.dropWhile fun w => w.plain? == some "command" with
  | w :: _ =>
    if w.plain?.any declaring.contains then declared outputOf words
    else Expansion.fields outputOf words
  | [] => Expansion.fields outputOf words

/-- What is shown in front of a command before it is run. -/
def tracePrefix (outputOf : OutputOf) : Act (List Char) := do
  let s ← get
  match (s.shell.known? "PS4").bind (·.value) with
  | none => return []
  | some text =>
    if !text.contains '$' && !text.contains '\x60' then return text
    else
      let reader := Reader.start text s.nextNumber
      match (pieces (12 * text.length + 64) .document true).run.run reader with
      | (.ok w, _) => Expansion.text outputOf w
      | (.error _, _) => return text

/-- Shows a command before it is run, on the stream of errors of its surroundings. -/
def trace (outputOf : OutputOf) (descriptors : List (Nat × Nat))
    (values : List (String × List Char)) (fields : List (List Char)) : Act Unit := do
  let sh := (← get).shell
  if sh.has 'x' then
    let assigned := values.map fun (name, value) => octets (name ++ "=") ++ value
    changeShell fun sh =>
      { sh with descriptors := descriptors, options := sh.options.filter (· != 'x') }
    let start ← tracePrefix outputOf
    say (start ++ [' '].intercalate (assigned ++ fields))
    changeShell fun now => { now with descriptors := sh.descriptors, options := sh.options }

end TestBench.Shell.Frame
