import TestBench.Files.Mode
import TestBench.Shell.Condition
import TestBench.Shell.Expansion
import TestBench.Shell.Text

/-!
The commands that a shell does itself, apart from those that run other commands.
-/
namespace TestBench.Shell

inductive Outcome where
  | status (n : Nat)
  | fault (message : List Char)
  deriving DecidableEq, Repr

abbrev Builtin := List (List Char) → Act Outcome

namespace Builtin

def succeeded : Outcome := .status 0

def ofTruth (b : Bool) : Outcome := .status (if b then 0 else 1)

def faulty (message : String) : Outcome := .fault (octets message)

def illegalNumber (cs : List Char) : Outcome := .fault (octets "Illegal number: " ++ cs)

def largestNumber : Nat := 2147483647

def natural? (cs : List Char) : Option Nat :=
  if !cs.isEmpty && cs.all (·.isDigit) && decimal cs ≤ largestNumber then some (decimal cs)
  else none

/-- The text of arguments after options, of which one asks for escapes to be resolved. -/
def plainEcho (arguments : List (List Char)) : List Char :=
  let isOption (a : List Char) : Bool :=
    1 < a.length && a.head? == some '-' && a.tail.all fun c => ['n', 'e', 'E'].contains c
  let options := (arguments.takeWhile isOption).flatten
  let shown := [' '].intercalate (arguments.dropWhile isOption)
  let (text, stopped) := if options.contains 'e' then unescape true shown else (shown, false)
  if options.contains 'n' || stopped then text else text ++ ['\n']

/-- The text of arguments, in which escapes are always resolved. -/
def escapingEcho (arguments : List (List Char)) : List Char :=
  let (shown, newline) := match arguments with
    | ['-', 'n'] :: rest => (rest, false)
    | _ => (arguments, true)
  let (text, stopped) := unescape true ([' '].intercalate shown)
  if newline && !stopped then text ++ ['\n'] else text

def echo : Builtin := fun arguments => do
  let dialect := (← get).shell.dialect
  print (if dialect = .wordy then plainEcho arguments else escapingEcho arguments)
  return succeeded

def printf : Builtin
  | [] | [['-', '-']] => return faulty "usage: printf format [arg ...]"
  | ['-', '-'] :: pattern :: rest => formatted pattern rest
  | ('-' :: option :: cs) :: rest =>
    if option = '-' then formatted ('-' :: option :: cs) rest
    else return .fault (octets "Illegal option -" ++ [option])
  | pattern :: rest => formatted pattern rest
where
  formatted (pattern : List Char) (arguments : List (List Char)) : Act Outcome := do
    let last := format pattern arguments
    print last.text
    last.faults.forM complain
    match last.error with
    | some message => return .fault message
    | none => return ofTruth last.faults.isEmpty

def test : Builtin := fun arguments => do
  match Condition.holds (← get).view arguments with
  | .ok b => return ofTruth b
  | .error message => return .fault message

def bracket : Builtin := fun arguments =>
  if arguments.getLast? = some [']'] then test arguments.dropLast
  else return faulty "missing ]"

def written (place : Location) : List Char := octets ("/" ++ "/".intercalate place)

def pwd : Builtin := fun _ => do
  print (written (← get).shell.directory ++ ['\n'])
  return succeeded

def assignExported (name : String) (value : List Char) : Act Unit := do
  assign name value
  changeShell (·.mark name)

def cd : Builtin := fun arguments => do
  let s ← get
  let sh := s.shell
  let operands := arguments.filter fun a => !(["-L", "-P", "--"].contains (String.ofList a))
  let target := match operands with
    | [] => (sh.value? "HOME").getD []
    | ['-'] :: _ => (sh.value? "OLDPWD").getD []
    | path :: _ => path
  let files := s.view
  let found := if target.isEmpty then .ok sh.directory else files.locate (pathOf target)
  match found with
  | .ok place =>
    if (files.entry? place).any (·.isDirectory) then
      assignExported "OLDPWD" (written sh.directory)
      assignExported "PWD" (written place)
      changeShell fun sh => { sh with directory := place }
      if operands = [['-']] then print (written place ++ ['\n'])
      return succeeded
    else return .fault (octets "can't cd to " ++ target)
  | .error _ => return .fault (octets "can't cd to " ++ target)

/-- A word as a name, with a value if an equals sign follows the name. -/
def named (cs : List Char) : Option (String × Option (List Char)) :=
  let name := cs.takeWhile (· != '=')
  if isName name then
    some (String.ofList name, if name = cs then none else some (cs.drop (name.length + 1)))
  else none

def badName (cs : List Char) : Outcome := .fault (cs ++ octets ": bad variable name")

/-- A text in quotation marks, as it would be read. -/
def inQuotes (cs : List Char) : List Char :=
  ['\''] ++ cs.flatMap (fun c => if c = '\'' then octets "'\"'\"'" else [c]) ++ ['\'']

/-- Prints variables in the order of their names. -/
def list (before : String) (accepts : Variable → Bool) : Act Unit := do
  let found := (← get).shell.memory.filter fun (_, v) => accepts v
  let ordered := found.mergeSort fun a b => !(b.1 < a.1)
  ordered.forM fun (name, v) =>
    print (octets (before ++ name)
      ++ (v.value.map fun cs => '=' :: inQuotes cs).getD [] ++ ['\n'])

/-- Gives variables a property, and values where some are given. -/
def declare (before : String) (accepts : Variable → Bool) (f : Variable → Variable) :
    Builtin := fun arguments => do
  let found := arguments.filter fun a => a ≠ ['-', 'p'] && a ≠ ['-', '-']
  if found.isEmpty then list before accepts
  match found.find? fun a => (named a).isNone with
  | some ill => return badName (ill.takeWhile (· != '='))
  | none =>
    found.forM fun a => do
      if let some (name, value) := named a then
        if let some cs := value then assign name cs
        changeShell fun sh => sh.setVariable name (f ((sh.known? name).getD ⟨none, false, false⟩))
    return succeeded

def exportNames : Builtin := declare "export " (·.isExported) fun v => { v with isExported := true }

def readonly : Builtin := declare "readonly " (·.isFixed) fun v => { v with isFixed := true }

def localNames : Builtin := fun arguments => do
  if !(← get).shell.canReturn then return faulty "not in a function"
  arguments.forM fun a => do
    if let some (name, value) := named a then
      changeShell fun sh => { sh with covered := (name, sh.known? name) :: sh.covered }
      if let some cs := value then assign name cs
  return succeeded

def unset : Builtin := fun arguments => do
  let ofFunctions := arguments.head? = some ['-', 'f']
  let names := (arguments.filter fun a => a.head? ≠ some '-').map String.ofList
  let sh := (← get).shell
  match names.find? fun name => (sh.known? name).any (·.isFixed),
      names.find? fun name => !ofFunctions && !isName name.toList with
  | some name, _ => return faulty (name ++ ": is read only")
  | none, some name => return badName name.toList
  | none, none =>
    names.forM fun name => changeShell fun sh =>
      if ofFunctions then { sh with functions := sh.functions.filter (·.1 != name) }
      else sh.unset name
    return succeeded

def shift : Builtin := fun arguments => do
  let count := match arguments with
    | [] => some 1
    | a :: _ => natural? a
  match count with
  | none => return illegalNumber (arguments.headD [])
  | some n =>
    if n ≤ (← get).shell.arguments.length then
      changeShell fun sh => { sh.withFirstOption with arguments := sh.arguments.drop n }
      return succeeded
    else return faulty "can't shift that many"

/-- The long names of options with their letters, if they have any. -/
def allOptions : List (String × Option Char) :=
  [("errexit", some 'e'), ("noglob", some 'f'), ("ignoreeof", some 'I'), ("interactive", some 'i'),
    ("monitor", some 'm'), ("noexec", some 'n'), ("stdin", some 's'), ("xtrace", some 'x'),
    ("verbose", some 'v'), ("vi", some 'V'), ("emacs", some 'E'), ("noclobber", some 'C'),
    ("allexport", some 'a'), ("notify", some 'b'), ("nounset", some 'u'), ("privileged", some 'p'),
    ("nolog", none), ("debug", none)]

/-- The letters of options by their long names. -/
def longOptions : List (String × Char) :=
  allOptions.filterMap fun (name, letter) => letter.map (name, ·)

def switch (on : Bool) (letters : List Char) : Act Unit := changeShell fun sh =>
  let others := sh.options.filter fun c => !letters.contains c
  { sh with options := if on then others ++ letters else others }

def isSwitch (c : Char) : Bool := "abCeEfIimnsuvVx".toList.contains c

/-- Sets the options that the letters of an argument stand for, one of which takes a long name from
the arguments that follow. Comes back with what is left of these, or the option that there is
not. -/
def takeOptions (on : Bool) : List Char → List (List Char) →
    Act (Except (List Char) (List (List Char)))
  | [], rest => return .ok rest
  | 'o' :: letters, name :: rest => do
    match List.lookup (String.ofList name) longOptions with
    | some letter =>
      switch on [letter]
      takeOptions on letters rest
    | none =>
      if (← get).shell.dialect = .wordy then takeOptions on letters rest
      else return .error (octets "-o " ++ name)
  | 'o' :: letters, [] => takeOptions on letters []
  | c :: letters, rest => do
    if isSwitch c then
      switch on [c]
      takeOptions on letters rest
    else return .error ['-', c]

def setAll : Nat → Builtin
  | 0, _ | _, [] => return succeeded
  | _, ['-', '-'] :: rest | _, ['-'] :: rest => put rest
  | limit + 1, (sign :: letters) :: rest => do
    if sign = '-' ∨ sign = '+' then
      match ← takeOptions (sign = '-') letters rest with
      | .ok rest => setAll limit rest
      | .error ill => return .fault (octets "Illegal option " ++ ill)
    else put ((sign :: letters) :: rest)
  | _, [] :: rest => put ([] :: rest)
where
  put (arguments : List (List Char)) : Act Outcome := do
    changeShell fun sh => { sh.withFirstOption with arguments := arguments }
    return succeeded

/-- Shows which options are set, as words or as a command that sets them. -/
def showOptions (asCommand : Bool) : Act Unit := do
  let sh := (← get).shell
  unless asCommand do print (octets "Current option settings\n")
  allOptions.forM fun (name, letter) => do
    let isOn := letter.any sh.has
    print (octets (if asCommand then (if isOn then "set -o " else "set +o ") ++ name ++ "\n"
      else name ++ String.ofList (List.replicate (16 - name.length) ' ')
        ++ (if isOn then "on\n" else "off\n")))

def set : Builtin := fun arguments => do
  if arguments.isEmpty then list "" fun _ => true
  if arguments = [['-', 'o']] ∨ arguments = [['+', 'o']] then
    showOptions (arguments = [['+', 'o']])
    return succeeded
  setAll (arguments.length + 1) arguments

def killUsage : Outcome :=
  faulty ("Usage: kill [-s sigspec | -signum | -sigspec] [pid | job]... or\n"
    ++ "kill -l [exitstatus]")

/-- The number of a signal by its name or by this number. The shell's end counts as one. -/
def signal? (cs : List Char) : Option Nat :=
  let name := String.ofList cs
  match natural? cs with
  | some n => if n < Signal.limit then some n else none
  | none => if name.toUpper = "EXIT" then some 0 else Signal.number? name

/-- Sends a signal to the script itself. Others are not there. -/
def send (signal : Nat) (target : List Char) : Act Outcome := do
  match natural? target with
  | none => return illegalNumber target
  | some _ =>
    if natural? target ≠ some Session.processNumber then sendJob signal target
    else if !Signal.isCertain signal then
      match List.lookup signal (← get).shell.traps with
      | some action =>
        if !action.isEmpty then modify fun s => { s with arrived := s.arrived ++ [signal] }
        return succeeded
      | none => act
    else act
where
  sendJob (signal : Nat) (target : List Char) : Act Outcome := do
    let jobs := (← get).jobs
    match jobs.find? fun j => some j.number == natural? target, Signal.effect signal with
    | none, _ =>
      complain (octets "No such process\n")
      return .status 1
    | some ⟨number, .asleep ..⟩, .ends =>
      let ended := jobs.map fun j => if j.number = number then ⟨number, .stopped signal⟩ else j
      modify fun s => { s with jobs := ended }
      return succeeded
    | some _, _ => return succeeded
  act : Act Outcome :=
    match Signal.effect signal with
    | .nothing => return succeeded
    | .stops => throw .never
    | .ends => throw (.killed signal)

def kill : Builtin := fun arguments => do
  match arguments with
  | [] => return killUsage
  | [['-', 's']] => return faulty "No arg for -s option"
  | ['-', 's'] :: name :: targets =>
    match signal? name with
    | some n => sendAll n targets
    | none => return .fault (octets "invalid signal number or name: " ++ name)
  | [['-', 'l']] =>
    (List.range Signal.limit).forM fun n => print (octets (Signal.nameOrNumber n ++ "\n"))
    return succeeded
  | ['-', 'l'] :: given :: _ =>
    match natural? given with
    | none => return illegalNumber given
    | some n =>
      let signal := if 128 < n then n - 128 else n
      if 0 < signal ∧ signal < Signal.limit then
        print (octets (Signal.nameOrNumber signal ++ "\n"))
        return succeeded
      else return .fault (octets "invalid signal number or exit status: " ++ given)
  | ('-' :: name) :: targets =>
    match signal? name with
    | some n => sendAll n targets
    | none => return .fault (octets "Illegal option -" ++ name.take 1)
  | targets => sendAll Signal.terminate targets
where
  sendAll (n : Nat) (targets : List (List Char)) : Act Outcome := do
    if targets.isEmpty then return killUsage
    let found ← targets.mapM (send n)
    return (found.find? (· ≠ succeeded)).getD succeeded

/-- A line of what is read: its characters, how many there are, and whether it ends. Backslashes may
quote characters and join lines. -/
def line (asItIs : Bool) : List Char → List Marked × Nat × Bool
  | [] => ([], 0, false)
  | '\n' :: _ => ([], 1, true)
  | ['\\'] => if asItIs then ([('\\', false)], 1, false) else ([], 1, false)
  | '\\' :: c :: rest =>
    if asItIs then
      let (cs, n, ended) := line asItIs (c :: rest)
      (('\\', false) :: cs, n + 1, ended)
    else
      let (cs, n, ended) := line asItIs rest
      (if c = '\n' then cs else (c, true) :: cs, n + 2, ended)
  | c :: rest =>
    let (cs, n, ended) := line asItIs rest
    ((c, false) :: cs, n + 1, ended)

/-- The options at the start of arguments, each with its value, and the rest of these. -/
def options (flags valued : List Char) : List (List Char) →
    Except (List Char) (List (Char × List Char) × List (List Char))
  | [] => .ok ([], [])
  | ['-', '-'] :: rest => .ok ([], rest)
  | ('-' :: c :: cs) :: rest =>
    letters (c :: cs) rest
  | rest => .ok ([], rest)
where
  letters : List Char → List (List Char) →
      Except (List Char) (List (Char × List Char) × List (List Char))
    | [], rest => next rest
    | c :: cs, rest =>
      if flags.contains c then (letters cs rest).map fun (os, rest) => ((c, []) :: os, rest)
      else if valued.contains c then
        match cs, rest with
        | [], value :: rest => (next rest).map fun (os, rest) => ((c, value) :: os, rest)
        | [], [] => .error (octets "No arg for -" ++ [c] ++ octets " option")
        | _, _ => (next rest).map fun (os, rest) => ((c, cs) :: os, rest)
      else .error (octets "Illegal option -" ++ [c])
  /-- Options in further arguments. No command has so many that it needs more than one. -/
  next : List (List Char) → Except (List Char) (List (Char × List Char) × List (List Char))
    | ['-', '-'] :: rest => .ok ([], rest)
    | rest => .ok ([], rest)

def read : Builtin := fun arguments => do
  match options ['r'] ['p'] arguments with
  | .error message => return .fault message
  | .ok (given, operands) =>
    let asItIs := given.any (·.1 == 'r')
    let names := operands.map String.ofList
    if names.isEmpty then return faulty "arg count"
    if let some name := names.find? fun n => !isName n.toList then return badName name.toList
    let s ← get
    let (text, isCut) := s.unread 0
    let (cs, count, ended) := line asItIs text
    if !ended && isCut then throw .starved
    consume 0 count
    let values := splitLine s.shell.separators names.length cs
    (names.zip (values ++ List.replicate names.length [])).forM fun (name, value) =>
      assign name value
    return ofTruth ended

def umask : Builtin := fun arguments => do
  let mask := (← get).shell.mask
  match arguments with
  | [] =>
    let digits := Mode.digits mask
    print (List.replicate (4 - digits.length) '0' ++ digits ++ ['\n'])
    return succeeded
  | ['-', 'S'] :: [] =>
    let granted := Mode.letters (0o777 ^^^ mask)
    let three (n : Nat) : List Char := ((granted.drop n).take 3).filter (· != '-')
    print (octets "u=" ++ three 0 ++ octets ",g=" ++ three 3 ++ octets ",o=" ++ three 6 ++ ['\n'])
    return succeeded
  | text :: _ =>
    if text.head?.any (·.isDigit) then
      match Mode.octal? text with
      | some n =>
        changeShell fun sh => { sh with mask := n &&& 0o777 }
        return succeeded
      | none => return illegalNumber text
    else match Mode.changed? 0 false text (0o777 ^^^ mask) with
      | some granted =>
        changeShell fun sh => { sh with mask := 0o777 ^^^ (granted &&& 0o777) }
        return succeeded
      | none => return .fault (octets "Illegal mode: " ++ text)

/-- Takes the next option from arguments. A colon in the list of letters follows those that need a
value. -/
def getopts : Builtin
  | letters :: name :: arguments => do
    if !isName name then return badName name
    let sh := (← get).shell
    let arguments := if arguments.isEmpty then sh.arguments else arguments
    let (index, offset) := if arguments.length + 1 < sh.optionIndex then (1, none)
      else (sh.optionIndex, sh.optionOffset)
    let isSilent := letters.head? = some ':'
    let inside := offset.bind fun n =>
      (arguments[index - 2]?).bind fun a => if index ≤ 1 ∨ a.length ≤ n then none else some n
    match inside, arguments[index - 1]? with
    | some n, _ =>
      take letters name arguments isSilent index ((arguments.getD (index - 2) []).drop n)
    | none, some ['-', '-'] => finish name (index + 1)
    | none, some ('-' :: c :: cs) => take letters name arguments isSilent (index + 1) (c :: cs)
    | none, _ => finish name index
  | _ => return faulty "usage: getopts optstring var [arg]"
where
  leave (name : List Char) (index : Nat) (offset : Option Nat) (found : List Char)
      (status : Nat) : Act Outcome := do
    changeShell fun sh =>
      { sh.assign optionVariable (toString index).toList with
        optionIndex := index, optionOffset := offset }
    assign (String.ofList name) found
    return .status status
  finish (name : List Char) (index : Nat) : Act Outcome := leave name index none ['?'] 1
  unsetValue : Act Unit := changeShell (·.unset "OPTARG")
  take (letters name : List Char) (arguments : List (List Char)) (isSilent : Bool) (index : Nat)
      (cs : List Char) : Act Outcome := do
    let c := cs.headD '?'
    let rest := cs.tail
    let current := arguments.getD (index - 2) []
    let offset := some (current.length - rest.length)
    let known := (letters.dropWhile (· == ':')).dropWhile (· != c)
    if known.isEmpty ∨ c = ':' then
      if isSilent then assign "OPTARG" [c]
      else
        write 2 (octets "Illegal option -" ++ [c, '\n'])
        unsetValue
      leave name index offset ['?'] 0
    else if known[1]? = some ':' then
      match rest, arguments[index - 1]? with
      | [], none =>
        if isSilent then
          assign "OPTARG" [c]
          leave name index offset [':'] 0
        else
          write 2 (octets "No arg for -" ++ [c] ++ octets " option\n")
          unsetValue
          leave name index offset ['?'] 0
      | [], some value =>
        assign "OPTARG" value
        leave name (index + 1) none [c] 0
      | _, _ =>
        assign "OPTARG" rest
        leave name index none [c] 0
    else
      assign "OPTARG" []
      leave name index offset [c] 0

def written? (sh : ShellState) (name : String) : Option (List Char) :=
  (List.lookup name sh.aliases).map fun value => octets name ++ '=' :: inQuotes value

/-- Gives commands other names, or shows what names have been given. -/
def aliasNames : Builtin := fun arguments => do
  let sh := (← get).shell
  if arguments.isEmpty then
    let ordered := sh.aliases.reverse.mergeSort fun a b =>
      ShellState.listingPlace a.1 ≤ ShellState.listingPlace b.1
    ordered.forM fun (name, _) => print ((written? sh name).getD [] ++ ['\n'])
  let results ← arguments.mapM fun a => do
    let name := a.takeWhile (· != '=')
    let key := String.ofList name
    if name.length < a.length ∧ !name.isEmpty then
      changeShell fun sh =>
        { sh with
          aliases := (key, a.drop (name.length + 1)) :: sh.aliases.filter (·.1 != key) }
      return true
    else match written? (← get).shell key with
      | some text =>
        print (text ++ ['\n'])
        return true
      | none =>
        write 2 (octets "alias: " ++ a ++ octets " not found\n")
        return false
  return ofTruth (results.all id)

def unaliasNames : Builtin := fun arguments => do
  if arguments.head? = some ['-', 'a'] then
    changeShell fun sh => { sh with aliases := [] }
    return succeeded
  let results ← arguments.mapM fun a => do
    let sh := (← get).shell
    let key := String.ofList a
    if (List.lookup key sh.aliases).isSome then
      changeShell fun sh => { sh with aliases := sh.aliases.filter (·.1 != key) }
      return true
    else
      write 2 (octets "unalias: " ++ a ++ octets " not found\n")
      return false
  return ofTruth (results.all id)

def showTraps : Act Unit := do
  let ordered := (← get).shell.traps.mergeSort fun a b => a.1 ≤ b.1
  ordered.forM fun (n, action) =>
    print (octets "trap -- " ++ inQuotes action
      ++ octets (" " ++ (if n = 0 then "EXIT" else Signal.nameOrNumber n) ++ "\n"))

/-- Sets what is done on signals. What is done is left out in front of a number, and a dash stands
for what is done without it. -/
def trap : Builtin
  | [] => do
    showTraps
    return succeeded
  | ['-', '-'] :: rest => trap rest
  | action :: signals =>
    if signals.isEmpty ∨ (natural? action).any (· < Signal.limit) then
      put none (action :: signals)
    else put (if action = ['-'] then none else some action) signals
where
  put (action : Option (List Char)) : List (List Char) → Act Outcome
    | [] => return succeeded
    | cs :: rest =>
      match signal? cs with
      | some n => do
        changeShell fun sh =>
          { sh with
            traps := (action.map (n, ·)).toList ++ sh.traps.filter (·.1 != n) }
        put action rest
      | none => do
        say (octets "trap: " ++ cs ++ octets ": bad trap")
        return .status 1

def times : Builtin := fun _ => do
  print (octets "0m0.000000s 0m0.000000s\n0m0.000000s 0m0.000000s\n")
  return succeeded

/-- The commands that leave the shell when they are used in a wrong way. -/
def special : List String :=
  [":", ".", "break", "continue", "eval", "exec", "exit", "export", "local", "readonly", "return",
    "set", "shift", "times", "trap", "unset"]

def find? (name : String) : Option Builtin :=
  match name with
  | "ulimit" => some fun _ => do
    print (octets "unlimited\n")
    return succeeded
  | ":" | "true" | "jobs" => some fun _ => return succeeded
  | "fg" | "bg" => some fun _ => return faulty "No current job"
  | "alias" => some aliasNames
  | "unalias" => some unaliasNames
  | "times" => some times
  | "trap" => some trap
  | "getopts" => some getopts
  | "false" => some fun _ => return .status 1
  | "echo" => some echo
  | "printf" => some printf
  | "test" => some test
  | "[" => some bracket
  | "pwd" => some pwd
  | "cd" | "chdir" => some cd
  | "export" => some exportNames
  | "readonly" => some readonly
  | "local" => some localNames
  | "unset" => some unset
  | "shift" => some shift
  | "set" => some set
  | "kill" => some kill
  | "read" => some read
  | "umask" => some umask
  | _ => none

end Builtin

end TestBench.Shell
